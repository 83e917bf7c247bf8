import Mathlib.Data.Rat.Defs
import WhizbangScripts.Py.Dict

/-!
# Python values read by `json.load`

`json.load` gives `None`, booleans, numbers, strings, lists and dicts. A dict
is kept as its entries in order, as `Py.Dict` keeps them; the operations the
scripts apply to these values are Python's, with their exceptions:

* `Json.contains`: `key in v`, which is a key test on a dict, a member test
  on a list, a substring test on a string, and a `TypeError` otherwise;
* `Json.getItem`, `Json.setItem`: `v[key]` and `v[key] = x` with a string key;
* `Json.iter`: `for x in v`;
* `Json.truthy`: `bool(v)`.
-/

namespace WhizbangScripts.Py

/-- A value `json.load` returns. Numbers are kept as exact rationals. -/
inductive Json where
  | null
  | bool (b : Bool)
  | num (n : ℚ)
  | str (s : Str)
  | arr (xs : List Json)
  | obj (fields : List (Str × Json))

namespace Json

mutual

/-- Equality of values is decided structurally. -/
def decEq : (a b : Json) → Decidable (a = b)
  | .null, .null => isTrue rfl
  | .bool a, .bool b => if h : a = b then isTrue (h ▸ rfl) else isFalse (by simp [h])
  | .num a, .num b => if h : a = b then isTrue (h ▸ rfl) else isFalse (by simp [h])
  | .str a, .str b => if h : a = b then isTrue (h ▸ rfl) else isFalse (by simp [h])
  | .arr a, .arr b =>
    match decEqList a b with
    | isTrue h => isTrue (h ▸ rfl)
    | isFalse h => isFalse (by simp [h])
  | .obj a, .obj b =>
    match decEqFields a b with
    | isTrue h => isTrue (h ▸ rfl)
    | isFalse h => isFalse (by simp [h])
  | .null, .bool _ | .null, .num _ | .null, .str _ | .null, .arr _ | .null, .obj _
  | .bool _, .null | .bool _, .num _ | .bool _, .str _ | .bool _, .arr _ | .bool _, .obj _
  | .num _, .null | .num _, .bool _ | .num _, .str _ | .num _, .arr _ | .num _, .obj _
  | .str _, .null | .str _, .bool _ | .str _, .num _ | .str _, .arr _ | .str _, .obj _
  | .arr _, .null | .arr _, .bool _ | .arr _, .num _ | .arr _, .str _ | .arr _, .obj _
  | .obj _, .null | .obj _, .bool _ | .obj _, .num _ | .obj _, .str _ | .obj _, .arr _ =>
    isFalse (by simp)

def decEqList : (a b : List Json) → Decidable (a = b)
  | [], [] => isTrue rfl
  | [], _ :: _ | _ :: _, [] => isFalse (by simp)
  | x :: xs, y :: ys =>
    match decEq x y, decEqList xs ys with
    | isTrue h, isTrue h' => isTrue (h ▸ h' ▸ rfl)
    | isFalse h, _ => isFalse (by simp [h])
    | _, isFalse h' => isFalse (by simp [h'])

def decEqFields : (a b : List (Str × Json)) → Decidable (a = b)
  | [], [] => isTrue rfl
  | [], _ :: _ | _ :: _, [] => isFalse (by simp)
  | (k, x) :: xs, (l, y) :: ys =>
    if hk : k = l then
      match decEq x y, decEqFields xs ys with
      | isTrue h, isTrue h' => isTrue (hk ▸ h ▸ h' ▸ rfl)
      | isFalse h, _ => isFalse (by simp [h])
      | _, isFalse h' => isFalse (by simp [h'])
    else isFalse (by simp [hk])

end

instance : DecidableEq Json := decEq

/-- `key in v` for a string `key`. -/
def contains (v : Json) (key : Str) : Except PyError Bool :=
  match v with
  | .obj fs => pure (findEntry key fs).isSome
  | .arr xs => pure (xs.contains (.str key))
  | .str s => pure (Py.contains s key)
  | _ => throw (.typeError "argument of type is not iterable")

/-- `v[key]` for a string `key`. -/
def getItem (v : Json) (key : Str) : Except PyError Json :=
  match v with
  | .obj fs =>
    match findEntry key fs with
    | some x => pure x
    | none => throw (.keyError (String.mk key))
  | .arr _ => throw (.typeError "list indices must be integers or slices, not str")
  | .str _ => throw (.typeError "string indices must be integers")
  | _ => throw (.typeError "object is not subscriptable")

/-- `v[key] = x` for a string `key`: the value after the assignment. -/
def setItem (v : Json) (key : Str) (x : Json) : Except PyError Json :=
  match v with
  | .obj fs => pure (.obj (setEntry key x fs))
  | .arr _ => throw (.typeError "list indices must be integers or slices, not str")
  | .str _ => throw (.typeError "'str' object does not support item assignment")
  | _ => throw (.typeError "object does not support item assignment")

/-- `v.get(key)` on a dict; `none` for any other value. -/
def get? (v : Json) (key : Str) : Option Json :=
  match v with
  | .obj fs => findEntry key fs
  | _ => none

/-- `v[key] = x` where `v` is already known to be a dict: the in-place
update of a value that was read from it. -/
def setField (v : Json) (key : Str) (x : Json) : Json :=
  match v with
  | .obj fs => .obj (setEntry key x fs)
  | v => v

/-- The values `for x in v` runs over: the elements of a list, the keys of a
dict, the one-character strings of a string. -/
def iter (v : Json) : Except PyError (List Json) :=
  match v with
  | .arr xs => pure xs
  | .obj fs => pure (fs.map fun e => .str e.1)
  | .str s => pure (s.map fun c => .str [c])
  | _ => throw (.typeError "object is not iterable")

/-- `bool(v)`. -/
def truthy : Json → Bool
  | .null => false
  | .bool b => b
  | .num n => n != 0
  | .str s => !s.isEmpty
  | .arr xs => !xs.isEmpty
  | .obj fs => !fs.isEmpty

@[simp] theorem contains_obj (fs : List (Str × Json)) (key : Str) :
    (obj fs).contains key = .ok (findEntry key fs).isSome := rfl

theorem getItem_obj {fs : List (Str × Json)} {key : Str} {x : Json}
    (h : findEntry key fs = some x) : (obj fs).getItem key = .ok x := by
  simp [getItem, h]; rfl

@[simp] theorem setItem_obj (fs : List (Str × Json)) (key : Str) (x : Json) :
    (obj fs).setItem key x = .ok (obj (setEntry key x fs)) := rfl

@[simp] theorem get?_obj (fs : List (Str × Json)) (key : Str) : (obj fs).get? key = findEntry key fs :=
  rfl

@[simp] theorem get?_setField_obj (fs : List (Str × Json)) (key key' : Str) (x : Json) :
    ((obj fs).setField key x).get? key' = if key = key' then some x else findEntry key' fs :=
  findEntry_setEntry key key' x fs

theorem getItem_ok {v x : Json} {key : Str} (h : v.getItem key = .ok x) :
    ∃ fs, v = obj fs ∧ findEntry key fs = some x := by
  cases v with
  | obj fs =>
    refine ⟨fs, rfl, ?_⟩
    simp only [getItem] at h
    split at h
    · rename_i y hy; cases h; exact hy
    · cases h
  | _ => cases h

theorem setItem_ok {v x w : Json} {key : Str} (h : v.setItem key x = .ok w) :
    ∃ fs, v = obj fs ∧ w = obj (setEntry key x fs) := by
  cases v with
  | obj fs => exact ⟨fs, rfl, (Except.ok.inj h).symm⟩
  | _ => cases h

theorem get?_of_contains_false {v : Json} {key : Str} (h : v.contains key = .ok false) :
    v.get? key = none := by
  cases v with
  | obj fs => cases hf : findEntry key fs <;> simp_all [contains]; cases h
  | arr | str => rfl
  | _ => cases h

end Json

end WhizbangScripts.Py
