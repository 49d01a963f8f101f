import MarkupTidy.Proofs.Formatter.Outcome
import MarkupTidy.Proofs.Options.Merging
import Mathlib.Data.List.Forall2

/-!
The argument vector of a request, which is what its engine is started with. Behind the base options
that nothing overrides stand the options that derive from the text, then, for a lint request, the
number of errors, and last the fixed options; no spelling of an option of these layers is left in
the base.
-/
namespace MarkupTidy.OptionMap

/-- The flag and the value that an entry puts into the argument vector. -/
def Renders (entry : String × Value) (pair : String × String) : Prop :=
  pair.1 = flagName entry.1 ∧ encodeValue entry.1 entry.2 = .ok pair.2

/-- Flags and values in turn. -/
def words (pairs : List (String × String)) : List String :=
  pairs.flatMap fun pair => [pair.1, pair.2]

/-- The entries that are not left out of the arguments. -/
def present (entries : List (String × Value)) : List (String × Value) :=
  entries.filter fun entry => !isUnset entry

/-- The arguments of entries are the flags and values of those that are not left out. -/
theorem argumentsOf_eq_ok_iff (entries : List (String × Value)) (arguments : List String) :
    argumentsOf entries = .ok arguments ↔
      ∃ pairs, List.Forall₂ Renders (present entries) pairs ∧ arguments = words pairs := by
  induction entries generalizing arguments with
  | nil => simp [argumentsOf, present, words]
  | cons entry rest ih =>
    by_cases hunset : isUnset entry
    · have hskip : present (entry :: rest) = present rest := by simp [present, hunset]
      simp only [argumentsOf, hunset, if_true, ih, hskip]
    · have hkeep : present (entry :: rest) = entry :: present rest := by simp [present, hunset]
      rw [hkeep]
      constructor
      · intro h
        simp only [argumentsOf, hunset] at h
        cases hvalue : encodeValue entry.1 entry.2 with
        | error fault => simp [hvalue, bind, Except.bind] at h
        | ok value =>
          cases hrest : argumentsOf rest with
          | error fault => simp [hvalue, hrest, bind, Except.bind] at h
          | ok others =>
            obtain ⟨pairs, hpairs, rfl⟩ := (ih others).mp hrest
            simp only [hvalue, hrest, bind, Except.bind, Bool.false_eq_true, if_false,
              Except.ok.injEq] at h
            exact ⟨(flagName entry.1, value) :: pairs, .cons ⟨rfl, hvalue⟩ hpairs, h.symm⟩
      · rintro ⟨pairs, hpairs, rfl⟩
        cases hpairs with
        | cons hpair hrest =>
          obtain ⟨hflag, hvalue⟩ := hpair
          have hothers := (ih _).mpr ⟨_, hrest, rfl⟩
          simp [argumentsOf, hunset, hvalue, hothers, bind, Except.bind, words, hflag]

theorem argumentsOf_append {first second : List (String × Value)} {arguments : List String}
    (h : argumentsOf (first ++ second) = .ok arguments) :
    ∃ left right, argumentsOf first = .ok left ∧ argumentsOf second = .ok right ∧
      arguments = left ++ right := by
  obtain ⟨pairs, hpairs, rfl⟩ := (argumentsOf_eq_ok_iff _ _).mp h
  have hsplit : present (first ++ second) = present first ++ present second :=
    List.filter_append ..
  rw [hsplit] at hpairs
  have hleft := List.forall₂_take (present first).length hpairs
  have hright := List.forall₂_drop (present first).length hpairs
  rw [List.take_left] at hleft
  rw [List.drop_left] at hright
  refine ⟨_, _, (argumentsOf_eq_ok_iff _ _).mpr ⟨_, hleft, rfl⟩,
    (argumentsOf_eq_ok_iff _ _).mpr ⟨_, hright, rfl⟩, ?_⟩
  simp only [words, ← List.flatMap_append, List.take_append_drop]

/-- The words of a request: what is left of the base without the removed flags, then the entries
put over it, then the words that stand last. -/
def Layered (base : OptionMap) (removed : List String) (added : List (String × Value))
    (last arguments : List String) : Prop :=
  ∃ basePairs addedPairs,
    List.Forall₂ Renders (present (withoutFlags removed base.entries)) basePairs ∧
    (∀ pair ∈ basePairs, pair.1 ∉ removed) ∧
    List.Forall₂ Renders added addedPairs ∧
    arguments = words basePairs ++ words addedPairs ++ last

theorem map_fst_of_renders {entries : List (String × Value)} {pairs : List (String × String)}
    (h : List.Forall₂ Renders entries pairs) : pairs.map Prod.fst = flags entries := by
  induction h with
  | nil => rfl
  | cons hpair _ ih => simp [flags, ih, hpair.1]

theorem layered_of_arguments {base : OptionMap} {removed : List String}
    {added lastEntries : List (String × Value)} {last arguments : List String}
    (hadded : present added = added) (hlast : argumentsOf lastEntries = .ok last)
    (h : argumentsOf (withoutFlags removed base.entries ++ added ++ lastEntries) =
      .ok arguments) :
    Layered base removed added last arguments := by
  obtain ⟨front, back, hfront, hback, rfl⟩ := argumentsOf_append h
  obtain ⟨left, right, hleft, hright, rfl⟩ := argumentsOf_append hfront
  obtain ⟨basePairs, hbase, rfl⟩ := (argumentsOf_eq_ok_iff _ _).mp hleft
  obtain ⟨addedPairs, haddedPairs, rfl⟩ := (argumentsOf_eq_ok_iff _ _).mp hright
  rw [hadded] at haddedPairs
  rw [hlast] at hback
  cases hback
  refine ⟨basePairs, addedPairs, hbase, ?_, haddedPairs, rfl⟩
  intro pair hpair
  have hflag : pair.1 ∈ flags (present (withoutFlags removed base.entries)) := by
    rw [← map_fst_of_renders hbase]
    exact List.mem_map_of_mem hpair
  obtain ⟨entry, hentry, heq⟩ := List.mem_map.mp hflag
  simp only [present, withoutFlags, List.mem_filter] at hentry
  simpa [heq] using hentry.1.2

/-- The flags of the options that every run has. -/
def fixedFlags : List String := ["--tidy-mark", "--force-output", "--quiet"]

/-- The arguments that every run has. -/
def fixedWords : List String := ["--tidy-mark", "no", "--force-output", "yes", "--quiet", "no"]

theorem flags_fixed : flags fixed.entries = fixedFlags := by rfl

theorem argumentsOf_fixed : argumentsOf fixed.entries = .ok fixedWords := by rfl

theorem entries_withFixed (map : OptionMap) :
    map.withFixed.entries = withoutFlags fixedFlags map.entries ++ fixed.entries := by
  have hnodup : (flags fixed.entries).Nodup := by rw [flags_fixed]; decide
  rw [withFixed, entries_mergeOne_of_nodup map fixed hnodup, flags_fixed]

end MarkupTidy.OptionMap

namespace MarkupTidy.DerivedOptions

open OptionMap

/-- The options that can derive from a text, in order. -/
def derivable : List String := [blocklevelTags, showBodyOnly, showErrors]

def derivableFlags : List String := ["--new-blocklevel-tags", "--show-body-only", "--show-errors"]

theorem deriveTags_cases {text : List Char} {base : OptionMap} {settings : Settings}
    {tags : List (String × Value)} (h : deriveTags text base settings = .ok tags) :
    tags = [] ∨ ∃ s, tags = [(blocklevelTags, .text s)] := by
  unfold deriveTags at h
  split at h
  · cases hset : setText (base.find? blocklevelTags) with
    | error fault => simp [hset, bind, Except.bind] at h
    | ok current =>
      simp only [hset, bind, Except.bind, Except.ok.injEq] at h
      split at h
      · exact Or.inl h.symm
      · exact Or.inr ⟨_, h.symm⟩
  · exact Or.inl (Except.ok.inj h).symm

/-- What derives are some of the derivable options in their order, each with a value. -/
theorem derived_parts {text : List Char} {base : OptionMap} {settings : Settings}
    {tags : List (String × Value)} (htags : deriveTags text base settings = .ok tags) :
    ((tags ++ deriveBody text settings ++ deriveErrors base settings).map Prod.fst).Sublist
        derivable ∧
      present (tags ++ deriveBody text settings ++ deriveErrors base settings) =
        tags ++ deriveBody text settings ++ deriveErrors base settings := by
  have hbody : deriveBody text settings = [] ∨
      ∃ b, deriveBody text settings = [(showBodyOnly, .bool b)] := by
    unfold deriveBody
    split
    · exact Or.inr ⟨_, rfl⟩
    · exact Or.inl rfl
  have herrors : deriveErrors base settings = [] ∨
      deriveErrors base settings = [(showErrors, .int standardErrors)] := by
    unfold deriveErrors
    split
    · exact Or.inr rfl
    · exact Or.inl rfl
  rcases deriveTags_cases htags with rfl | ⟨s, rfl⟩ <;> rcases hbody with hb | ⟨b, hb⟩ <;>
    rcases herrors with he | he <;> rw [hb, he] <;>
    exact ⟨by simp [derivable, List.cons_sublist_cons], rfl⟩

theorem entries_derive {text : String} {base derived : OptionMap} {settings : Settings}
    (h : derive text base settings = .ok derived) :
    ∃ tags, deriveTags text.toList base settings = .ok tags ∧
      derived.entries =
        tags ++ deriveBody text.toList settings ++ deriveErrors base settings := by
  unfold derive at h
  cases htags : deriveTags text.toList base settings with
  | error fault => simp [htags, bind, Except.bind] at h
  | ok tags =>
    simp only [htags, bind, Except.bind, Except.ok.injEq] at h
    subst h
    have hnodup : derivable.Nodup := by decide
    exact ⟨tags, rfl, Pairs.collect_of_nodup (hnodup.sublist (derived_parts htags).1)⟩

theorem present_derive {text : String} {base derived : OptionMap} {settings : Settings}
    (h : derive text base settings = .ok derived) :
    present derived.entries = derived.entries := by
  obtain ⟨tags, htags, hentries⟩ := entries_derive h
  rw [hentries]
  exact (derived_parts htags).2

theorem flags_derive {text : String} {base derived : OptionMap} {settings : Settings}
    (h : derive text base settings = .ok derived) :
    (flags derived.entries).Sublist derivableFlags := by
  obtain ⟨tags, htags, hentries⟩ := entries_derive h
  have hflags : flags derived.entries = (derived.entries.map Prod.fst).map flagName := by
    simp [flags]
  rw [hflags, hentries]
  exact (derived_parts htags).1.map flagName

theorem nodup_derive {text : String} {base derived : OptionMap} {settings : Settings}
    (h : derive text base settings = .ok derived) : (flags derived.entries).Nodup :=
  List.Nodup.sublist (flags_derive h) (by decide)

end MarkupTidy.DerivedOptions

namespace MarkupTidy.Runner

/-- Whatever engine is launched with the options, it is started with these arguments. -/
def LaunchesWith (options : OptionMap) (arguments : List String) : Prop :=
  ∀ host executable text, executable ≠ "" →
    (launch host (some executable) options text).value =
      startWith host executable arguments text

/-- Whatever engine a report is collected from with the options, it is started with these
arguments. -/
def CollectsWith (options : OptionMap) (arguments : List String) : Prop :=
  ∀ host executable text limit, executable ≠ "" →
    (collectReport host (some executable) options text limit).value =
      (startWith host executable arguments text >>= fun launched =>
        (conclude launched limit).value).map Execution.diagnostics

theorem launchesWith_of_arguments {options : OptionMap} {arguments : List String}
    (h : options.withFixed.arguments = .ok arguments) : LaunchesWith options arguments := by
  intro host executable text hname
  rw [Formatter.value_launch host hname, h]
  rfl

theorem collectsWith_of_arguments {options : OptionMap} {arguments : List String}
    (h : (forReport options).withFixed.arguments = .ok arguments) :
    CollectsWith options arguments := by
  intro host executable text limit hname
  have hlaunch := launchesWith_of_arguments h host executable text hname
  simp only [collectReport, run, Logged.value_bind, Logged.value_pure, hlaunch]
  cases startWith host executable arguments text with
  | error fault => rfl
  | ok launched => rfl

end MarkupTidy.Runner

namespace MarkupTidy.Formatter

open OptionMap DerivedOptions

theorem buildOptions_ok {host : Host} {f : Formatter} {text : String} {path : Option Path}
    {options : OptionMap} {warnings : List String}
    (h : (f.buildOptions host text path).value.1 = .ok (options, warnings)) :
    ∃ resolved derived, (f.resolver.optionsFor host path).value.1 = .ok resolved ∧
      derive text resolved.options f.settings = .ok derived ∧
      options = resolved.options.mergeOne derived := by
  have hkept := Resolver.edition_optionsFor host f.resolver path
  simp only [buildOptions, Logged.value_bind] at h
  revert h hkept
  generalize (f.resolver.optionsFor host path).value = found
  obtain ⟨result, resolver⟩ := found
  intro h hkept
  cases result with
  | error fault => cases h
  | ok resolved =>
    have hsettings : settings { f with resolver } = f.settings := by
      simp only at hkept
      simp only [settings, Resolver.settings, hkept]
    simp only [Logged.value_pure, hsettings] at h
    cases hderive : derive text resolved.options f.settings with
    | error fault =>
      rw [hderive] at h
      cases h
    | ok derived =>
      rw [hderive] at h
      cases h
      exact ⟨resolved, derived, rfl, hderive, rfl⟩

/-- No derived entry has a fixed flag. -/
theorem withoutFlags_fixed_of_subset {entries : List (String × Value)}
    (h : flags entries ⊆ derivableFlags) : withoutFlags fixedFlags entries = entries := by
  apply withoutFlags_eq_self
  intro flag hflag
  have hdisjoint : ∀ flag ∈ derivableFlags, flag ∉ fixedFlags := by decide
  exact hdisjoint flag (h hflag)

theorem entries_forReport (options : OptionMap) :
    (Runner.forReport options).entries =
      withoutFlags ["--show-errors"] options.entries ++
        [(Runner.showErrors, .int Runner.reportErrors)] := by
  have hflags : flags (ofPairs [(Runner.showErrors, .int Runner.reportErrors)]).entries =
      ["--show-errors"] := by rfl
  rw [Runner.forReport, entries_mergeOne_of_nodup _ _ (by rw [hflags]; decide), hflags]
  rfl

/-- The engine of a format request is started with the base entries whose flag neither derives nor
is fixed, the derived entries and the fixed words; that of a lint request gets the number of errors
before the fixed words, in place of any other. -/
theorem request_arguments (host : Host) (f : Formatter) (text : String) (path : Option Path)
    (options : OptionMap) (warnings : List String)
    (hbuilt : (f.buildOptions host text path).value.1 = .ok (options, warnings)) :
    ∃ resolved derived, (f.resolver.optionsFor host path).value.1 = .ok resolved ∧
      derive text resolved.options f.settings = .ok derived ∧
      (flags derived.entries).Sublist derivableFlags ∧
      (∀ arguments, options.withFixed.arguments = .ok arguments →
        Runner.LaunchesWith options arguments ∧
          Layered resolved.options (flags derived.entries ++ fixedFlags) derived.entries
            fixedWords arguments) ∧
      ∀ arguments, (Runner.forReport options).withFixed.arguments = .ok arguments →
        Runner.CollectsWith options arguments ∧
          Layered resolved.options (flags derived.entries ++ "--show-errors" :: fixedFlags)
            (withoutFlags ["--show-errors"] derived.entries)
            ("--show-errors" :: "10" :: fixedWords) arguments := by
  obtain ⟨resolved, derived, hresolved, hderive, rfl⟩ := buildOptions_ok hbuilt
  have hflags := flags_derive hderive
  have hmerged := entries_mergeOne_of_nodup resolved.options derived (nodup_derive hderive)
  refine ⟨resolved, derived, hresolved, hderive, hflags, ?_, ?_⟩
  · intro arguments harguments
    refine ⟨Runner.launchesWith_of_arguments harguments, ?_⟩
    rw [OptionMap.arguments, entries_withFixed, hmerged, withoutFlags_append,
      withoutFlags_withoutFlags, withoutFlags_fixed_of_subset hflags.subset] at harguments
    exact layered_of_arguments (present_derive hderive) argumentsOf_fixed harguments
  · intro arguments harguments
    refine ⟨Runner.collectsWith_of_arguments harguments, ?_⟩
    have hkept : withoutFlags ["--show-errors"] derived.entries ⊆ derived.entries :=
      List.filter_sublist.subset
    have hadded : present (withoutFlags ["--show-errors"] derived.entries) =
        withoutFlags ["--show-errors"] derived.entries :=
      List.filter_eq_self.mpr fun entry hentry =>
        List.filter_eq_self.mp (present_derive hderive) entry (hkept hentry)
    have hsubset : flags (withoutFlags ["--show-errors"] derived.entries) ⊆ derivableFlags :=
      fun flag hflag => hflags.subset (List.map_subset _ hkept hflag)
    have hlast : argumentsOf ((Runner.showErrors, .int Runner.reportErrors) :: fixed.entries) =
        .ok ("--show-errors" :: "10" :: fixedWords) := by rfl
    have hreport : withoutFlags fixedFlags [(Runner.showErrors, .int Runner.reportErrors)] =
        [(Runner.showErrors, .int Runner.reportErrors)] := by rfl
    rw [OptionMap.arguments, entries_withFixed, entries_forReport, hmerged, withoutFlags_append,
      withoutFlags_append, withoutFlags_append, hreport, withoutFlags_fixed_of_subset hsubset,
      withoutFlags_withoutFlags, withoutFlags_withoutFlags,
      List.append_assoc _ [(Runner.showErrors, _)]] at harguments
    exact layered_of_arguments hadded hlast harguments

/-- A formatter whose options spell a fixed flag and a derivable one in other ways. -/
def spelledFormatter : Formatter :=
  let options := [("Quiet", .bool true), ("indent", .text "auto"), ("show-errors", .int 0)]
  .ofSettings ⟨0, { fileSearch := false, showErrors := true, options := .ofPairs options }⟩ none

def emptyHost : Host where
  tree := .empty
  directory := []
  searchPath := ""

theorem request_arguments_spelled :
    ∃ options, (spelledFormatter.buildOptions emptyHost "<x-y>" none).value.1 =
        .ok (options, []) ∧
      ∃ (resolved : Resolved) (derived : OptionMap),
        (spelledFormatter.resolver.optionsFor emptyHost none).value.1 = .ok resolved ∧
        Runner.LaunchesWith options ["--indent", "auto", "--new-blocklevel-tags", "x-y",
          "--show-errors", "6", "--tidy-mark", "no", "--force-output", "yes", "--quiet", "no"] ∧
        Layered resolved.options (flags derived.entries ++ fixedFlags) derived.entries fixedWords
          ["--indent", "auto", "--new-blocklevel-tags", "x-y", "--show-errors", "6",
            "--tidy-mark", "no", "--force-output", "yes", "--quiet", "no"] := by
  refine ⟨_, rfl, ?_⟩
  obtain ⟨resolved, derived, hresolved, -, -, hformat, -⟩ :=
    request_arguments emptyHost spelledFormatter "<x-y>" none _ _ rfl
  exact ⟨resolved, derived, hresolved, hformat _ rfl⟩

end MarkupTidy.Formatter
