/-!
# Insertion-ordered dictionaries

A dictionary gives each of finitely many distinct keys one value and lists its entries in
the order in which the keys first came. Every change goes through `alter`.
-/
namespace Chomsky

def entryKeys {κ ν : Type} (es : List (κ × ν)) : List κ := es.map Prod.fst

/-- Entries with distinct keys. -/
structure Dictionary (κ ν : Type) where
  entries : List (κ × ν)
  nodup : (entryKeys entries).Nodup
deriving DecidableEq

namespace Dictionary
variable {κ ν : Type} [DecidableEq κ]

def empty : Dictionary κ ν := ⟨[], List.nodup_nil⟩

instance : EmptyCollection (Dictionary κ ν) := ⟨empty⟩
instance : Inhabited (Dictionary κ ν) := ⟨empty⟩

/-- The keys in the order in which they first came. -/
def keys (d : Dictionary κ ν) : List κ := entryKeys d.entries

def size (d : Dictionary κ ν) : Nat := d.entries.length

/-- The value of a key in a list of entries. -/
def findIn (k : κ) : List (κ × ν) → Option ν
  | [] => none
  | (k', v) :: es => if k' = k then some v else findIn k es

def find? (d : Dictionary κ ν) (k : κ) : Option ν := findIn k d.entries

/-- The entries after the value of `k` became `f` of what it was; a new key comes last. -/
def alterIn (k : κ) (f : Option ν → ν) : List (κ × ν) → List (κ × ν)
  | [] => [(k, f none)]
  | (k', v) :: es => if k' = k then (k', f (some v)) :: es else (k', v) :: alterIn k f es

theorem entryKeys_alterIn (k : κ) (f : Option ν → ν) (es : List (κ × ν)) :
    entryKeys (alterIn k f es) =
      if k ∈ entryKeys es then entryKeys es else entryKeys es ++ [k] := by
  induction es with
  | nil => rfl
  | cons e es ih =>
    obtain ⟨k', v⟩ := e
    by_cases hk : k' = k
    · subst hk; simp [alterIn, entryKeys]
    · have hk' : k ≠ k' := fun h => hk h.symm
      simp only [entryKeys] at ih
      by_cases hm : k ∈ es.map Prod.fst <;> simp [alterIn, entryKeys, hk, hk', ih, hm]

theorem nodup_alterIn {k : κ} {f : Option ν → ν} {es : List (κ × ν)}
    (h : (entryKeys es).Nodup) : (entryKeys (alterIn k f es)).Nodup := by
  rw [entryKeys_alterIn]
  split
  · exact h
  · rename_i hk
    refine List.nodup_append.2 ⟨h, by simp, ?_⟩
    intro a ha b hb hab
    rw [List.mem_singleton] at hb
    exact hk (hb ▸ hab ▸ ha)

theorem findIn_alterIn (k x : κ) (f : Option ν → ν) (es : List (κ × ν)) :
    findIn x (alterIn k f es) = if x = k then some (f (findIn k es)) else findIn x es := by
  induction es with
  | nil => simp [alterIn, findIn, eq_comm]
  | cons e es ih =>
    obtain ⟨k', v⟩ := e
    by_cases hk : k' = k
    · subst hk
      by_cases h : x = k'
      · subst h; simp [alterIn, findIn]
      · have h' : k' ≠ x := fun e => h e.symm
        simp [alterIn, findIn, h, h']
    · by_cases h : k' = x
      · subst h; simp [alterIn, findIn, hk]
      · simp [alterIn, findIn, hk, h, ih]

/-- Makes the value of `k` the result of `f` on its value so far. -/
def alter (d : Dictionary κ ν) (k : κ) (f : Option ν → ν) : Dictionary κ ν :=
  ⟨alterIn k f d.entries, nodup_alterIn d.nodup⟩

def set (d : Dictionary κ ν) (k : κ) (v : ν) : Dictionary κ ν := d.alter k fun _ => v

@[simp] theorem find?_empty (x : κ) : (∅ : Dictionary κ ν).find? x = none := rfl

theorem find?_alter (d : Dictionary κ ν) (k x : κ) (f : Option ν → ν) :
    (d.alter k f).find? x = if x = k then some (f (d.find? k)) else d.find? x :=
  findIn_alterIn k x f d.entries

theorem find?_set (d : Dictionary κ ν) (k x : κ) (v : ν) :
    (d.set k v).find? x = if x = k then some v else d.find? x := find?_alter d k x _

theorem keys_alter (d : Dictionary κ ν) (k : κ) (f : Option ν → ν) :
    (d.alter k f).keys = if k ∈ d.keys then d.keys else d.keys ++ [k] :=
  entryKeys_alterIn k f d.entries

theorem findIn_eq_none_iff {x : κ} {es : List (κ × ν)} : findIn x es = none ↔ x ∉ entryKeys es := by
  induction es with
  | nil => simp [findIn, entryKeys]
  | cons e es ih =>
    obtain ⟨k', v⟩ := e
    simp only [entryKeys] at ih
    by_cases h : k' = x
    · simp [findIn, entryKeys, h]
    · have h' : x ≠ k' := fun e => h e.symm
      simp [findIn, entryKeys, h, h', ih]

theorem find?_eq_none_iff {d : Dictionary κ ν} {x : κ} : d.find? x = none ↔ x ∉ d.keys :=
  findIn_eq_none_iff

omit [DecidableEq κ] in
theorem length_keys (d : Dictionary κ ν) : d.keys.length = d.size := List.length_map Prod.fst

theorem keys_set (d : Dictionary κ ν) (k : κ) (v : ν) :
    (d.set k v).keys = if k ∈ d.keys then d.keys else d.keys ++ [k] := keys_alter d k _

/-- Whether two dictionaries have the same keys, with values that `same` takes for equal. -/
def sameEntries (same : ν → ν → Bool) (d e : Dictionary κ ν) : Bool :=
  d.size = e.size && d.entries.all fun (k, v) => (e.find? k).any (same v)

end Dictionary

end Chomsky
