import Mathlib.Order.Lattice
import Mathlib.Data.List.Basic
import Mathlib.Tactic.Common

/-!
A finite map kept as its ascending list of entries. Iteration order is key
order, as in a byte-ordered store, and the strict ordering of the keys is part
of the value, so no map with a repeated key can be built.
-/

set_option autoImplicit false
set_option relaxedAutoImplicit false

namespace Engram.Library

universe u v

structure OrderedMap (κ : Type u) (ν : Type v) [LinearOrder κ] where
  entries : List (κ × ν)
  ascending : entries.Pairwise (fun a b => a.1 < b.1)

namespace OrderedMap

variable {κ : Type u} {ν : Type v} [LinearOrder κ]

def empty : OrderedMap κ ν := ⟨[], List.Pairwise.nil⟩

def keys (m : OrderedMap κ ν) : List κ := m.entries.map Prod.fst

def get? (m : OrderedMap κ ν) (k : κ) : Option ν :=
  (m.entries.find? (fun e => e.1 = k)).map Prod.snd

def contains (m : OrderedMap κ ν) (k : κ) : Bool := m.entries.any (fun e => e.1 = k)

/-- Single-pass insertion: an entry with the same key is replaced in place. -/
def insertEntry (k : κ) (x : ν) : List (κ × ν) → List (κ × ν)
  | [] => [(k, x)]
  | e :: rest =>
      if k < e.1 then (k, x) :: e :: rest
      else if k = e.1 then (k, x) :: rest
      else e :: insertEntry k x rest

private theorem mem_insertEntry {k : κ} {x : ν} {e : κ × ν} {l : List (κ × ν)}
    (member : e ∈ insertEntry k x l) : e = (k, x) ∨ e ∈ l := by
  induction l with
  | nil => exact Or.inl (List.mem_singleton.mp member)
  | cons d rest ih =>
      simp only [insertEntry] at member
      split_ifs at member with below same
      · exact (List.mem_cons.mp member).imp_right id
      · rcases List.mem_cons.mp member with rfl | old
        · exact Or.inl rfl
        · exact Or.inr (List.mem_cons_of_mem d old)
      · rcases List.mem_cons.mp member with rfl | rest_member
        · exact Or.inr List.mem_cons_self
        · exact (ih rest_member).imp_right (List.mem_cons_of_mem d)

private theorem insertEntry_ascending (k : κ) (x : ν) {l : List (κ × ν)}
    (ascending : l.Pairwise (fun a b => a.1 < b.1)) :
    (insertEntry k x l).Pairwise (fun a b => a.1 < b.1) := by
  induction l with
  | nil => simp [insertEntry]
  | cons d rest ih =>
      obtain ⟨head, tail⟩ := List.pairwise_cons.mp ascending
      simp only [insertEntry]
      split_ifs with below same
      · refine List.pairwise_cons.mpr ⟨?_, ascending⟩
        intro e member
        rcases List.mem_cons.mp member with rfl | old
        · exact below
        · exact lt_trans below (head e old)
      · exact List.pairwise_cons.mpr ⟨fun e member => same ▸ head e member, tail⟩
      · refine List.pairwise_cons.mpr ⟨?_, ih tail⟩
        intro e member
        rcases mem_insertEntry member with rfl | old
        · exact lt_of_le_of_ne (not_lt.mp below) (Ne.symm same)
        · exact head e old

def set (m : OrderedMap κ ν) (k : κ) (x : ν) : OrderedMap κ ν :=
  ⟨insertEntry k x m.entries, insertEntry_ascending k x m.ascending⟩

/-- A key is added at most once. -/
theorem length_keys_set_le (m : OrderedMap κ ν) (k : κ) (x : ν) :
    (m.set k x).keys.length ≤ m.keys.length + 1 := by
  simp only [keys, set, List.length_map]
  generalize m.entries = l
  induction l with
  | nil => simp [insertEntry]
  | cons e rest ih =>
      simp only [insertEntry]
      split_ifs
      · simp
      · simp
      · simp only [List.length_cons]
        omega

/-- A key above all others is appended. -/
theorem entries_set_of_above {m : OrderedMap κ ν} {k : κ} (x : ν)
    (above : ∀ e ∈ m.entries, e.1 < k) : (m.set k x).entries = m.entries ++ [(k, x)] := by
  change insertEntry k x m.entries = _
  generalize m.entries = l at above
  induction l with
  | nil => rfl
  | cons e rest ih =>
      have below := above e List.mem_cons_self
      simp only [insertEntry, if_neg below.not_gt, if_neg below.ne', List.cons_append]
      rw [ih fun e member => above e (List.mem_cons_of_mem _ member)]

def remove (m : OrderedMap κ ν) (k : κ) : OrderedMap κ ν :=
  ⟨m.entries.filter (fun e => e.1 ≠ k), m.ascending.filter _⟩

theorem length_keys_remove_le (m : OrderedMap κ ν) (k : κ) :
    (m.remove k).keys.length ≤ m.keys.length := by
  simp only [keys, remove, List.length_map]
  exact List.length_filter_le _ _

/-- Remove, in iteration order, every listed key that satisfies `drop`. -/
def removeKeys (m : OrderedMap κ ν) (drop : κ → Bool) (ks : List κ) : OrderedMap κ ν :=
  ks.foldl (fun m k => if drop k then m.remove k else m) m

private theorem entries_removeKeys (m : OrderedMap κ ν) (drop : κ → Bool) (ks : List κ) :
    (m.removeKeys drop ks).entries =
      m.entries.filter (fun e => !(drop e.1 && ks.contains e.1)) := by
  induction ks generalizing m with
  | nil => simp [removeKeys]
  | cons k ks ih =>
      change ((if drop k then m.remove k else m).removeKeys drop ks).entries = _
      rw [ih]
      by_cases dropped : drop k
      · rw [if_pos dropped]
        simp only [remove, List.filter_filter]
        apply List.filter_congr
        intro e _
        by_cases same : e.1 = k <;> simp [same, dropped]
      · rw [if_neg dropped]
        apply List.filter_congr
        intro e _
        by_cases same : e.1 = k <;> simp [same, dropped]

/-- Removing over the map's own keys leaves exactly the entries not dropped. -/
theorem entries_removeKeys_keys (m : OrderedMap κ ν) (drop : κ → Bool) :
    (m.removeKeys drop m.keys).entries = m.entries.filter (fun e => !drop e.1) := by
  rw [entries_removeKeys]
  apply List.filter_congr
  intro e member
  have listed : m.keys.contains e.1 = true :=
    List.contains_iff_mem.mpr (List.mem_map_of_mem member)
  simp only [listed, Bool.and_true]

/-- In key order, the entries above the one at a position are those behind it. -/
theorem filter_above_eq_drop (m : OrderedMap κ ν) {i : ℕ} {e : κ × ν}
    (listed : m.entries[i]? = some e) :
    m.entries.filter (fun d => !decide (d.1 ≤ e.1)) = m.entries.drop (i + 1) := by
  have ascending := m.ascending
  generalize m.entries = l at listed ascending
  induction l generalizing i with
  | nil => simp at listed
  | cons first rest ih =>
      obtain ⟨head, tail⟩ := List.pairwise_cons.mp ascending
      cases i with
      | zero =>
          obtain rfl := Option.some.inj listed
          have above : ∀ d ∈ rest, (!decide (d.1 ≤ first.1)) = true := by
            intro d member
            simp [head d member]
          rw [List.filter_cons_of_neg (by simp), List.filter_eq_self.mpr above]
          rfl
      | succ i =>
          have later : rest[i]? = some e := listed
          have below := head e (List.mem_of_getElem? later)
          rw [List.filter_cons_of_neg (by simp [below.le]), ih later tail]
          rfl

section Lookup

private theorem find?_insertEntry (k j : κ) (x : ν) (l : List (κ × ν)) :
    (insertEntry k x l).find? (fun e => e.1 = j) =
      if j = k then some (k, x) else l.find? (fun e => e.1 = j) := by
  by_cases same : j = k
  · subst same
    rw [if_pos rfl]
    induction l with
    | nil => simp [insertEntry]
    | cons e rest ih =>
        simp only [insertEntry]
        split_ifs with below equal
        · simp
        · simp
        · rw [List.find?_cons_of_neg (by simpa using Ne.symm equal), ih]
  · have other : ¬ k = j := fun equal => same equal.symm
    rw [if_neg same]
    induction l with
    | nil => simp [insertEntry, other]
    | cons e rest ih =>
        simp only [insertEntry]
        split_ifs with below equal
        · rw [List.find?_cons_of_neg (by simpa using other)]
        · rw [List.find?_cons_of_neg (by simpa using other),
            List.find?_cons_of_neg (by simpa [← equal] using other)]
        · rw [List.find?_cons, List.find?_cons, ih]

@[simp] theorem get?_set (m : OrderedMap κ ν) (k j : κ) (x : ν) :
    (m.set k x).get? j = if j = k then some x else m.get? j := by
  simp only [get?, set, find?_insertEntry]
  split <;> rfl

@[simp] theorem get?_remove (m : OrderedMap κ ν) (k j : κ) :
    (m.remove k).get? j = if j = k then none else m.get? j := by
  simp only [get?, remove, List.find?_filter]
  by_cases same : j = k
  · subst same
    simp
  · rw [if_neg same]
    congr 2
    funext e
    by_cases found : e.1 = j
    · simp [found, same]
    · simp [found]

theorem mem_keys_iff (m : OrderedMap κ ν) (k : κ) : k ∈ m.keys ↔ (m.get? k).isSome = true := by
  simp [keys, get?, Option.isSome_map, List.find?_isSome]

/-- Keys are unique, so an entry is what its key looks up. -/
theorem get?_of_mem (m : OrderedMap κ ν) {e : κ × ν} (member : e ∈ m.entries) :
    m.get? e.1 = some e.2 := by
  have ascending := m.ascending
  unfold get?
  generalize m.entries = l at member ascending
  induction l with
  | nil => cases member
  | cons first rest ih =>
      obtain ⟨head, tail⟩ := List.pairwise_cons.mp ascending
      rcases List.mem_cons.mp member with rfl | later
      · simp
      · rw [List.find?_cons_of_neg (by simpa using (head e later).ne)]
        exact ih later tail

end Lookup

end OrderedMap

end Engram.Library
