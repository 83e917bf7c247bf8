import WhizbangScripts.Py.Str

/-!
# Python dictionaries

A `dict` keeps its entries in insertion order; assigning to a present key
keeps the key's place. `Dict` carries the fact that no key occurs twice.

* `insert` is `d[k] = v`, `update` is `d.update(other)`;
* `get?_insert`, `mem_keys_insert`: what one assignment changes;
* `get?_update`, `mem_keys_update`: `update` is a union in which `other` wins;
* `get?_foldl_insert_last`: assigning pairs in order, the last pair of a key
  wins (`lastValue`);
* `All`: a property of every value, kept by `insert` and `update`.
-/

namespace WhizbangScripts.Py

/-- The value of the first entry with key `k`. -/
def findEntry {κ ν : Type} [DecidableEq κ] (k : κ) : List (κ × ν) → Option ν
  | [] => none
  | (k', v) :: rest => if k' = k then some v else findEntry k rest

/-- `d[k] = v` on the entry list: the value replaced in place, or appended. -/
def setEntry {κ ν : Type} [DecidableEq κ] (k : κ) (v : ν) : List (κ × ν) → List (κ × ν)
  | [] => [(k, v)]
  | (k', v') :: rest => if k' = k then (k, v) :: rest else (k', v') :: setEntry k v rest

section
variable {κ ν : Type} [DecidableEq κ]

theorem mem_map_setEntry (k k' : κ) (v : ν) (l : List (κ × ν)) :
    k' ∈ (setEntry k v l).map Prod.fst ↔ k' = k ∨ k' ∈ l.map Prod.fst := by
  induction l with
  | nil => simp [setEntry]
  | cons e rest ih =>
    obtain ⟨k₀, v₀⟩ := e
    by_cases h : k₀ = k
    · subst h; simp [setEntry]
    · simp only [setEntry, h, ↓reduceIte, List.map_cons, List.mem_cons, ih]
      exact or_left_comm

theorem nodup_setEntry (k : κ) (v : ν) (l : List (κ × ν)) (h : (l.map Prod.fst).Nodup) :
    ((setEntry k v l).map Prod.fst).Nodup := by
  induction l with
  | nil => simp [setEntry]
  | cons e rest ih =>
    obtain ⟨k₀, v₀⟩ := e
    rw [List.map_cons, List.nodup_cons] at h
    by_cases hk : k₀ = k
    · subst hk; simpa [setEntry] using h
    · simp only [setEntry, hk, ↓reduceIte, List.map_cons, List.nodup_cons, mem_map_setEntry]
      exact ⟨not_or.2 ⟨not_false, h.1⟩, ih h.2⟩

theorem findEntry_setEntry (k k' : κ) (v : ν) (l : List (κ × ν)) :
    findEntry k' (setEntry k v l) = if k = k' then some v else findEntry k' l := by
  induction l with
  | nil => simp [setEntry, findEntry]
  | cons e rest ih =>
    obtain ⟨k₀, v₀⟩ := e
    by_cases h : k₀ = k
    · subst h; by_cases h' : k₀ = k' <;> simp [setEntry, findEntry, h']
    · by_cases h' : k₀ = k'
      · subst h'; simp [setEntry, findEntry, h, Ne.symm h]
      · simp [setEntry, findEntry, h, h', ih]

theorem setEntry_setEntry (k : κ) (a b : ν) (l : List (κ × ν)) :
    setEntry k a (setEntry k b l) = setEntry k a l := by
  induction l with
  | nil => simp [setEntry]
  | cons e rest ih =>
    obtain ⟨k₀, v₀⟩ := e
    by_cases h : k₀ = k <;> simp [setEntry, h, ih]

theorem findEntry_isSome (k : κ) (l : List (κ × ν)) :
    (findEntry k l).isSome ↔ k ∈ l.map Prod.fst := by
  induction l with
  | nil => simp [findEntry]
  | cons e rest ih =>
    by_cases h : e.1 = k
    · simp [findEntry, h]
    · simp only [findEntry, h, ↓reduceIte, ih, List.map_cons, List.mem_cons]
      exact ⟨Or.inr, fun h' => h'.resolve_left (Ne.symm h)⟩

theorem findEntry_of_mem {k : κ} {v : ν} {l : List (κ × ν)} (h : (l.map Prod.fst).Nodup)
    (hm : (k, v) ∈ l) : findEntry k l = some v := by
  induction l with
  | nil => cases hm
  | cons e rest ih =>
    rw [List.map_cons, List.nodup_cons] at h
    rcases List.mem_cons.1 hm with rfl | hm
    · simp [findEntry]
    · have hk : e.1 ≠ k := fun he => h.1 (he ▸ List.mem_map_of_mem Prod.fst hm)
      simp [findEntry, hk, ih h.2 hm]

/-- The value of the last pair with key `k`: what assigning the pairs of `l`
one by one leaves under `k`. -/
def lastValue (l : List (κ × ν)) (k : κ) : Option ν :=
  l.reverse.findSome? fun e => if e.1 = k then some e.2 else none

theorem lastValue_append (l₁ l₂ : List (κ × ν)) (k : κ) :
    lastValue (l₁ ++ l₂) k = (lastValue l₂ k).or (lastValue l₁ k) := by
  simp [lastValue, List.findSome?_append]

theorem lastValue_mem {l : List (κ × ν)} {k : κ} {v : ν} (h : lastValue l k = some v) :
    (k, v) ∈ l := by
  obtain ⟨e, he, hv⟩ := List.exists_of_findSome?_eq_some h
  split at hv
  · cases hv; rename_i hk; rw [← hk]; exact List.mem_reverse.1 he
  · cases hv

end

/-- A Python `dict`: its entries in insertion order, no key twice. -/
structure Dict (κ ν : Type) [DecidableEq κ] where
  entries : List (κ × ν)
  nodup : (entries.map Prod.fst).Nodup

namespace Dict
variable {κ ν : Type} [DecidableEq κ]

theorem ext {a b : Dict κ ν} (h : a.entries = b.entries) : a = b := by
  cases a; cases b; cases h; rfl

instance [DecidableEq ν] : DecidableEq (Dict κ ν) := fun a b =>
  decidable_of_iff (a.entries = b.entries) ⟨ext, fun h => h ▸ rfl⟩

/-- `{}`. -/
def empty : Dict κ ν := ⟨[], List.nodup_nil⟩

/-- The keys in insertion order. -/
def keys (d : Dict κ ν) : List κ := d.entries.map Prod.fst

/-- `d.get(k)`. -/
def get? (d : Dict κ ν) (k : κ) : Option ν := findEntry k d.entries

/-- `d[k] = v`. -/
def insert (d : Dict κ ν) (k : κ) (v : ν) : Dict κ ν :=
  ⟨setEntry k v d.entries, nodup_setEntry k v d.entries d.nodup⟩

/-- `d.update(other)`: the entries of `other` assigned one by one. -/
def update (d other : Dict κ ν) : Dict κ ν :=
  other.entries.foldl (fun d e => d.insert e.1 e.2) d

/-- `len(d)`. -/
def size (d : Dict κ ν) : Nat := d.entries.length

@[simp] theorem get?_empty (k : κ) : (empty : Dict κ ν).get? k = none := rfl

@[simp] theorem keys_empty : (empty : Dict κ ν).keys = [] := rfl

@[simp] theorem get?_insert (d : Dict κ ν) (k k' : κ) (v : ν) :
    (d.insert k v).get? k' = if k = k' then some v else d.get? k' :=
  findEntry_setEntry k k' v d.entries

@[simp] theorem mem_keys_insert (d : Dict κ ν) (k k' : κ) (v : ν) :
    k' ∈ (d.insert k v).keys ↔ k' = k ∨ k' ∈ d.keys :=
  mem_map_setEntry k k' v d.entries

theorem mem_keys (d : Dict κ ν) (k : κ) : k ∈ d.keys ↔ ∃ v, d.get? k = some v := by
  rw [keys, ← findEntry_isSome, Option.isSome_iff_exists]; rfl

theorem get?_eq_none (d : Dict κ ν) (k : κ) : d.get? k = none ↔ k ∉ d.keys := by
  rw [mem_keys]; cases d.get? k <;> simp

theorem get?_of_mem (d : Dict κ ν) {k : κ} {v : ν} (h : (k, v) ∈ d.entries) :
    d.get? k = some v :=
  findEntry_of_mem d.nodup h

theorem mem_keys_foldl_insert (l : List (κ × ν)) (d : Dict κ ν) (k : κ) :
    k ∈ (l.foldl (fun d e => d.insert e.1 e.2) d).keys ↔ k ∈ d.keys ∨ k ∈ l.map Prod.fst := by
  induction l generalizing d with
  | nil => simp
  | cons e rest ih =>
    simp only [List.foldl_cons, ih, mem_keys_insert, List.map_cons, List.mem_cons]
    exact or_assoc.trans or_left_comm

@[simp] theorem mem_keys_update (d other : Dict κ ν) (k : κ) :
    k ∈ (d.update other).keys ↔ k ∈ d.keys ∨ k ∈ other.keys :=
  mem_keys_foldl_insert other.entries d k

theorem get?_foldl_insert (l : List (κ × ν)) (hl : (l.map Prod.fst).Nodup) (d : Dict κ ν)
    (k : κ) : (l.foldl (fun d e => d.insert e.1 e.2) d).get? k = (findEntry k l).or (d.get? k) := by
  induction l generalizing d with
  | nil => simp [findEntry]
  | cons e rest ih =>
    rw [List.map_cons, List.nodup_cons] at hl
    rw [List.foldl_cons, ih hl.2, get?_insert]
    by_cases h : e.1 = k
    · subst h
      have : findEntry e.1 rest = none := by
        cases hf : findEntry e.1 rest
        · rfl
        · exact absurd ((findEntry_isSome _ _).1 (by simp [hf])) hl.1
      simp [findEntry, this]
    · simp [findEntry, h]

/-- Assigning pairs one by one, the last pair with a key wins. -/
theorem get?_foldl_insert_last (l : List (κ × ν)) (d : Dict κ ν) (k : κ) :
    (l.foldl (fun d e => d.insert e.1 e.2) d).get? k = (lastValue l k).or (d.get? k) := by
  induction l generalizing d with
  | nil => rfl
  | cons e rest ih =>
    rw [List.foldl_cons, ih, get?_insert, ← List.singleton_append, lastValue_append, Option.or_assoc]
    by_cases h : e.1 = k <;> simp [lastValue, h]

@[simp] theorem get?_update (d other : Dict κ ν) (k : κ) :
    (d.update other).get? k = (other.get? k).or (d.get? k) :=
  get?_foldl_insert other.entries other.nodup d k

/-- Every value of `d` satisfies `p`. -/
def All (p : ν → Prop) (d : Dict κ ν) : Prop :=
  ∀ k v, d.get? k = some v → p v

theorem all_empty (p : ν → Prop) : (empty : Dict κ ν).All p := fun _ _ h => by cases h

theorem All.insert {p : ν → Prop} {d : Dict κ ν} (h : d.All p) (k : κ) {v : ν} (hv : p v) :
    (d.insert k v).All p := by
  intro k' v' h'
  rw [get?_insert] at h'
  split at h'
  · cases h'; exact hv
  · exact h k' v' h'

theorem All.update {p : ν → Prop} {d other : Dict κ ν} (hd : d.All p) (ho : other.All p) :
    (d.update other).All p := by
  intro k v h
  rw [get?_update] at h
  cases hk : other.get? k with
  | none => rw [hk, Option.none_or] at h; exact hd k v h
  | some w => rw [hk] at h; cases h; exact ho k _ hk

theorem All.of_mem {p : ν → Prop} {d : Dict κ ν} (h : d.All p) {e : κ × ν} (he : e ∈ d.entries) :
    p e.2 :=
  h e.1 e.2 (d.get?_of_mem he)

end Dict

end WhizbangScripts.Py
