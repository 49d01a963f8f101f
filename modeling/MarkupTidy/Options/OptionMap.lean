import MarkupTidy.Options.Flag
import MarkupTidy.Pairs
import MarkupTidy.Value

/-!
Option maps: values under option names, in order, no name twice. Maps are merged by flag: an
entry of a later map takes the place of every earlier entry for its flag, whatever its spelling,
and stands at the end.
-/
namespace MarkupTidy

structure OptionMap where
  entries : List (String × Value)
  distinct : (entries.map Prod.fst).Nodup

namespace OptionMap

def empty : OptionMap := ⟨[], List.nodup_nil⟩

instance : Inhabited OptionMap := ⟨empty⟩

/-- Collect entries; a repeated name keeps its first place and takes its last value. -/
def ofPairs (pairs : List (String × Value)) : OptionMap :=
  ⟨Pairs.collect pairs, Pairs.nodup_collect pairs⟩

/-- The entry addresses the flag. -/
def hasFlag (flag : String) (entry : String × Value) : Bool := flagName entry.1 == flag

/-- The entries for other flags. -/
def withoutFlag (flag : String) (entries : List (String × Value)) : List (String × Value) :=
  entries.filter fun entry => !hasFlag flag entry

theorem notMem_withoutFlag (key : String) (entries : List (String × Value)) :
    key ∉ (withoutFlag (flagName key) entries).map Prod.fst := by
  simp [withoutFlag, hasFlag]

/-- Put an entry at the end, in place of all others for its flag. -/
def put (key : String) (value : Value) (map : OptionMap) : OptionMap where
  entries := withoutFlag (flagName key) map.entries ++ [(key, value)]
  distinct := by
    have kept := map.distinct.sublist
      (List.Sublist.map Prod.fst (List.filter_sublist (p := fun e => !hasFlag (flagName key) e)))
    have fresh := notMem_withoutFlag key map.entries
    rw [List.map_append, List.nodup_append]
    refine ⟨kept, by simp, ?_⟩
    rintro a ha b hb rfl
    simp only [List.map_cons, List.map_nil, List.mem_singleton] at hb
    exact fresh (hb ▸ ha)

/-- Put all entries of a later map. -/
def mergeOne (base later : OptionMap) : OptionMap :=
  later.entries.foldl (fun map entry => map.put entry.1 entry.2) base

/-- Merge maps in order over a base. -/
def merge (base : OptionMap) (laters : List OptionMap) : OptionMap := laters.foldl mergeOne base

/-- The value of the first entry for the flag of a key. -/
def find? (map : OptionMap) (key : String) : Option Value :=
  (map.entries.find? (hasFlag (flagName key))).map Prod.snd

/-- Options that every run has: no mark in the output, output in spite of errors, and messages. -/
def fixed : OptionMap :=
  ofPairs [("tidyMark", .bool false), ("forceOutput", .bool true), ("quiet", .bool false)]

/-- The map with the fixed options forced at the end. -/
def withFixed (map : OptionMap) : OptionMap := map.mergeOne fixed

theorem entries_put (key : String) (value : Value) (map : OptionMap) :
    (map.put key value).entries = withoutFlag (flagName key) map.entries ++ [(key, value)] := rfl

end OptionMap

end MarkupTidy
