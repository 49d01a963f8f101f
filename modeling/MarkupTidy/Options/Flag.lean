import MarkupTidy.Text.Lower

/-!
Flags. An option is named in camel case or with hyphens; both spellings have the same flag, in
small letters with a hyphen before each capital letter but the first character.
-/
namespace MarkupTidy.Flag

/-- A hyphen before each capital letter of ASCII. -/
def hyphenateCapitals (s : List Char) : List Char :=
  s.flatMap fun c => if c.isUpper then ['-', c] else [c]

/-- Hyphens between the words of a name in camel case. -/
def hyphenate : List Char → List Char
  | [] => []
  | first :: rest => first :: hyphenateCapitals rest

/-- The flag of an option name, without the hyphens in front. -/
def bareName (key : List Char) : List Char := Text.lower (hyphenate key)

/-- The flag of an option name. -/
def name (key : List Char) : List Char := '-' :: '-' :: bareName key

theorem hyphenateCapitals_of_no_capital {s : List Char} (h : ∀ c ∈ s, c.isUpper = false) :
    hyphenateCapitals s = s := by
  induction s with
  | nil => rfl
  | cons c rest ih =>
    have hc := h c (List.mem_cons_self ..)
    have hr := ih fun d hd => h d (List.mem_cons_of_mem _ hd)
    simp only [hyphenateCapitals] at hr ⊢
    simp [hc, hr]

end MarkupTidy.Flag

namespace MarkupTidy

/-- The flag that an option name addresses. -/
def flagName (key : String) : String := String.ofList (Flag.name key.toList)

end MarkupTidy
