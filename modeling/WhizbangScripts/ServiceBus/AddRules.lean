import Mathlib.Data.List.Forall2
import WhizbangScripts.Py.Json

/-!
# add-servicebus-rules.py

`add_rules_to_subscriptions` walks `config["UserConfig"]["Namespaces"]`, the
`Topics` of each namespace and the `Subscriptions` of each topic, and gives
every subscription whose `Rules` is absent or falsy the rule list
`[add_true_filter_rule()]`. It mutates the config in place, and an exception
can stop it half way; the model returns the outcome together with the config
as the caller sees it afterwards.

* `subscriptionStep`, `topicStep`, `namespaceStep`, `addRulesToSubscriptions`:
  the three loops, each turn giving the updated value and the exception it
  raised;
* `withRules`, `patched`: the config the patch is meant to produce;
* `addRulesToSubscriptions_spec`: on a config of the expected shape the
  script returns `True` with the patched config, a second run changes
  nothing, and without `UserConfig.Namespaces` it returns `False` and changes
  nothing;
* `Patches`, `PartlyPatched`, `addRulesToSubscriptions_patches`: on any
  config, each loop level does only what the patch does, so a run that
  raises part way has given some subscriptions their rules and changed
  nothing else, and a run that returns `True` has patched the whole config;
* `main_writes_patched_or_nothing`: so the script writes the fully patched
  config or nothing.
-/

namespace WhizbangScripts.ServiceBus
open Py

/-- `add_true_filter_rule()`. -/
def addTrueFilterRule : Json :=
  .obj [("Name".toList, .str "$Default".toList),
    ("Properties".toList, .obj [("FilterType".toList, .num 0),
      ("SqlFilter".toList, .obj [("SqlExpression".toList, .str "1=1".toList)])])]

/-- The loop `for x in xs: body(x)` over a list, stopped by the first
exception: the elements after the loop, and the exception. -/
def loopUntilRaise (body : Json → Json × Option PyError) : List Json → List Json × Option PyError
  | [] => ([], none)
  | x :: xs =>
    match body x with
    | (y, some e) => (y :: xs, some e)
    | (y, none) =>
      let r := loopUntilRaise body xs
      (y :: r.1, r.2)

/-- `for x in v: body(x)` where `v` is a value of the config. The elements of
a list are the config's own values and are updated in place; the keys of a
dict and the characters of a string are new strings, so only an exception of
the body remains. -/
def forIn (v : Json) (body : Json → Json × Option PyError) : Json × Option PyError :=
  match v with
  | .arr xs =>
    let r := loopUntilRaise body xs
    (.arr r.1, r.2)
  | v =>
    match v.iter with
    | .ok xs => (v, (loopUntilRaise body xs).2)
    | .error e => (v, some e)

/-- The lookups of the two `print` calls: `topic['Name']`, then
`subscription['Name']`. -/
def printNames (topic subscription : Json) : Option PyError :=
  match (do let _ ← topic.getItem "Name".toList; subscription.getItem "Name".toList) with
  | .ok _ => none
  | .error e => some e

/-- `"Rules" not in subscription or not subscription["Rules"]`. -/
def needsRules (subscription : Json) : Except PyError Bool := do
  if !(← subscription.contains "Rules".toList) then return true
  return !(← subscription.getItem "Rules".toList).truthy

/-- One turn of the innermost loop. -/
def subscriptionStep (topic subscription : Json) : Json × Option PyError :=
  match needsRules subscription with
  | .error e => (subscription, some e)
  | .ok true =>
    match subscription.setItem "Rules".toList (.arr [addTrueFilterRule]) with
    | .error e => (subscription, some e)
    | .ok subscription => (subscription, printNames topic subscription)
  | .ok false => (subscription, printNames topic subscription)

/-- The body `if key not in v: continue` then `for x in v[key]: body(x)`,
with `v[key]` updated in place. -/
def fieldLoop (key : Str) (body : Json → Json × Option PyError) (v : Json) :
    Json × Option PyError :=
  match v.contains key with
  | .error e => (v, some e)
  | .ok false => (v, none)
  | .ok true =>
    match v.getItem key with
    | .error e => (v, some e)
    | .ok xs =>
      let r := forIn xs body
      (v.setField key r.1, r.2)

/-- One turn of the loop over the topics of a namespace. -/
def topicStep (topic : Json) : Json × Option PyError :=
  fieldLoop "Subscriptions".toList (subscriptionStep topic) topic

/-- One turn of the loop over the namespaces. -/
def namespaceStep (ns : Json) : Json × Option PyError :=
  fieldLoop "Topics".toList topicStep ns

/-- `add_rules_to_subscriptions(config)`: what it returns or raises, and the
config after the call. -/
def addRulesToSubscriptions (config : Json) : Except PyError Bool × Json :=
  match config.contains "UserConfig".toList with
  | .error e => (.error e, config)
  | .ok false => (.ok false, config)
  | .ok true =>
    match config.getItem "UserConfig".toList with
    | .error e => (.error e, config)
    | .ok userConfig =>
      match userConfig.contains "Namespaces".toList with
      | .error e => (.error e, config)
      | .ok false => (.ok false, config)
      | .ok true =>
        match userConfig.getItem "Namespaces".toList with
        | .error e => (.error e, config)
        | .ok namespaces =>
          let r := forIn namespaces namespaceStep
          let config := config.setField "UserConfig".toList
            (userConfig.setField "Namespaces".toList r.1)
          match r.2 with
          | some e => (.error e, config)
          | none => (.ok true, config)

/-! ## The patched config -/

/-- `bool(v["Rules"])` for a subscription `v`; false when it has none. -/
def hasRules (v : Json) : Bool := ((v.get? "Rules".toList).map Json.truthy).getD false

/-- A subscription after the patch: unchanged when its `Rules` is truthy,
otherwise with `Rules` set to `[add_true_filter_rule()]`. -/
def withRules (v : Json) : Json :=
  if hasRules v then v else v.setField "Rules".toList (.arr [addTrueFilterRule])

/-- `f` applied to the value under `key` of a dict, when there is one. -/
def mapField (key : Str) (f : Json → Json) (v : Json) : Json :=
  match v.get? key with
  | some x => v.setField key (f x)
  | none => v

/-- `f` applied to each element of the list under `key` of a dict. -/
def mapList (key : Str) (f : Json → Json) : Json → Json :=
  mapField key fun
    | .arr xs => .arr (xs.map f)
    | x => x

/-- The config with every subscription of every topic of every namespace of
`UserConfig` given its rules, and nothing else changed. -/
def patched : Json → Json :=
  mapField "UserConfig".toList <| mapList "Namespaces".toList <| mapList "Topics".toList <|
    mapList "Subscriptions".toList withRules

theorem mapField_some {key : Str} {f : Json → Json} {fs : List (Str × Json)} {x : Json}
    (h : findEntry key fs = some x) : mapField key f (.obj fs) = (Json.obj fs).setField key (f x) := by
  simp only [mapField, Json.get?_obj, h]

theorem mapList_arr {key : Str} {f : Json → Json} {fs : List (Str × Json)} {xs : List Json}
    (h : findEntry key fs = some (.arr xs)) :
    mapList key f (.obj fs) = (Json.obj fs).setField key (.arr (xs.map f)) :=
  mapField_some h

/-- A dict with a `Name`. -/
def named (v : Json) : Bool := match v with
  | .obj fs => (findEntry "Name".toList fs).isSome
  | _ => false

/-- A list whose elements all satisfy `p`. -/
def listOf (p : Json → Bool) : Json → Bool
  | .arr xs => xs.all p
  | _ => false

/-- A dict whose value under `key`, if it has one, satisfies `p`. -/
def optField (key : Str) (p : Json → Bool) (v : Json) : Bool := match v with
  | .obj fs => ((findEntry key fs).map p).getD true
  | _ => false

/-- The configs the script is written for: `UserConfig.Namespaces` is a list
of dicts, their `Topics` (where present) lists of dicts with a `Name`, and
the `Subscriptions` of those (where present) lists of dicts with a `Name`. -/
def wellShaped (config : Json) : Bool :=
  match config.get? "UserConfig".toList with
  | some (.obj userConfig) =>
    match findEntry "Namespaces".toList userConfig with
    | some namespaces =>
      listOf (optField "Topics".toList <| listOf fun t =>
        named t && optField "Subscriptions".toList (listOf named) t) namespaces
    | none => false
  | _ => false

/-! ## The loops on a config of the expected shape -/

theorem loopUntilRaise_eq_map {body : Json → Json × Option PyError} {g : Json → Json}
    {xs : List Json} (h : ∀ x ∈ xs, body x = (g x, none)) :
    loopUntilRaise body xs = (xs.map g, none) := by
  induction xs with
  | nil => rfl
  | cons x xs ih =>
    simp only [loopUntilRaise, h x (List.mem_cons_self _ _),
      ih fun y hy => h y (List.mem_cons_of_mem _ hy), List.map_cons]

/-- A loop over the list under `key` whose body raises nothing is the map of
the body over that list. -/
theorem fieldLoop_eq {key : Str} {body : Json → Json × Option PyError} {g : Json → Json}
    {fs : List (Str × Json)}
    (h : ∀ x, findEntry key fs = some x → ∃ xs, x = .arr xs ∧ ∀ y ∈ xs, body y = (g y, none)) :
    fieldLoop key body (.obj fs) = (mapList key g (.obj fs), none) := by
  cases hk : findEntry key fs with
  | none => simp [fieldLoop, mapList, mapField, hk]
  | some x =>
    obtain ⟨xs, rfl, hxs⟩ := h x hk
    simp [fieldLoop, mapList, mapField, hk, Json.getItem_obj hk, forIn, loopUntilRaise_eq_map hxs]

theorem named_iff {v : Json} :
    named v = true ↔ ∃ fs, v = .obj fs ∧ (findEntry "Name".toList fs).isSome := by
  cases v with
  | obj fs => exact ⟨fun h => ⟨fs, rfl, h⟩, fun ⟨_, h, hn⟩ => by cases h; exact hn⟩
  | _ => exact ⟨fun h => (nomatch h), fun ⟨_, h, _⟩ => nomatch h⟩

theorem printNames_eq_none {topic sub : Json} (ht : named topic = true) (hs : named sub = true) :
    printNames topic sub = none := by
  obtain ⟨tfs, rfl, htn⟩ := named_iff.1 ht
  obtain ⟨sfs, rfl, hsn⟩ := named_iff.1 hs
  obtain ⟨a, ha⟩ := Option.isSome_iff_exists.1 htn
  obtain ⟨b, hb⟩ := Option.isSome_iff_exists.1 hsn
  simp [printNames, Json.getItem_obj ha, Json.getItem_obj hb, -String.toList]; rfl

theorem named_setField_rules (v x : Json) : named (v.setField "Rules".toList x) = named v := by
  cases v <;> simp [named, Json.setField, findEntry_setEntry]

theorem needsRules_obj (fs : List (Str × Json)) :
    needsRules (.obj fs) = .ok !hasRules (.obj fs) := by
  cases h : findEntry "Rules".toList fs with
  | none => simp [needsRules, hasRules, h, -String.toList]; rfl
  | some r => simp [needsRules, hasRules, h, Json.getItem_obj h, -String.toList]; rfl

/-- One turn of the innermost loop gives the subscription its rules. -/
theorem subscriptionStep_eq {topic sub : Json} (ht : named topic = true) (hs : named sub = true) :
    subscriptionStep topic sub = (withRules sub, none) := by
  obtain ⟨fs, rfl, -⟩ := named_iff.1 hs
  cases hr : hasRules (.obj fs)
  · have hs' : named ((Json.obj fs).setField "Rules".toList (.arr [addTrueFilterRule])) = true := by
      rw [named_setField_rules]; exact hs
    simp only [subscriptionStep, needsRules_obj, hr, Bool.not_false, Json.setItem_obj]
    rw [← Json.setField, printNames_eq_none ht hs', withRules, hr]; rfl
  · simp only [subscriptionStep, needsRules_obj, hr, Bool.not_true, printNames_eq_none ht hs,
      withRules, if_true]

/-- One turn of the loop over topics gives every subscription of the topic
its rules. -/
theorem topicStep_eq {t : Json}
    (h : (named t && optField "Subscriptions".toList (listOf named) t) = true) :
    topicStep t = (mapList "Subscriptions".toList withRules t, none) := by
  rw [Bool.and_eq_true] at h
  obtain ⟨fs, rfl, -⟩ := named_iff.1 h.1
  refine fieldLoop_eq fun x hx => ?_
  have hl : listOf named x = true := by
    simpa only [optField, hx, Option.map_some', Option.getD_some] using h.2
  cases x with
  | arr xs =>
    exact ⟨xs, rfl, fun y hy => subscriptionStep_eq h.1 (by simpa [listOf] using List.all_eq_true.1 hl y hy)⟩
  | _ => simp [listOf] at hl

/-- One turn of the loop over namespaces gives every subscription of every
topic of the namespace its rules. -/
theorem namespaceStep_eq {ns : Json}
    (h : optField "Topics".toList (listOf fun t =>
      named t && optField "Subscriptions".toList (listOf named) t) ns = true) :
    namespaceStep ns = (mapList "Topics".toList (mapList "Subscriptions".toList withRules) ns, none) := by
  cases ns with
  | obj fs =>
    refine fieldLoop_eq fun x hx => ?_
    have hl : listOf (fun t => named t && optField "Subscriptions".toList (listOf named) t) x = true := by
      simpa only [optField, hx, Option.map_some', Option.getD_some] using h
    cases x with
    | arr xs => exact ⟨xs, rfl, fun y hy => topicStep_eq (List.all_eq_true.1 hl y hy)⟩
    | _ => simp [listOf] at hl
  | _ => simp [optField] at h

/-- The namespaces of a config of the expected shape. -/
theorem wellShaped_iff {config : Json} :
    wellShaped config = true ↔ ∃ fs userConfig nss, config = .obj fs ∧
      findEntry "UserConfig".toList fs = some (.obj userConfig) ∧
      findEntry "Namespaces".toList userConfig = some (.arr nss) ∧
      ∀ ns ∈ nss, optField "Topics".toList (listOf fun t =>
        named t && optField "Subscriptions".toList (listOf named) t) ns = true := by
  constructor
  · intro h
    unfold wellShaped at h
    split at h
    · rename_i userConfig hu
      cases config with
      | obj fs =>
        split at h
        · rename_i namespaces hn
          cases namespaces with
          | arr nss => exact ⟨fs, userConfig, nss, rfl, hu, hn, List.all_eq_true.1 h⟩
          | _ => simp [listOf] at h
        · cases h
      | _ => cases hu
    · cases h
  · rintro ⟨fs, userConfig, nss, rfl, hu, hn, h⟩
    simp only [wellShaped, Json.get?_obj, hu, hn, listOf, List.all_eq_true]
    exact h

/-- On a config of the expected shape the script returns `True` and leaves
the patched config. -/
theorem addRulesToSubscriptions_eq {config : Json} (h : wellShaped config = true) :
    addRulesToSubscriptions config = (.ok true, patched config) := by
  obtain ⟨fs, userConfig, nss, rfl, hu, hn, hns⟩ := wellShaped_iff.1 h
  have hmap : loopUntilRaise namespaceStep nss =
      (nss.map (mapList "Topics".toList (mapList "Subscriptions".toList withRules)), none) :=
    loopUntilRaise_eq_map fun ns h => namespaceStep_eq (hns ns h)
  simp only [addRulesToSubscriptions, Json.contains_obj, hu, Option.isSome_some,
    Json.getItem_obj hu, hn, Json.getItem_obj hn, forIn, hmap]
  rw [patched, mapField_some hu, mapList_arr hn]

/-! ## A second run -/

/-- A subscription given its rules has truthy rules; one that had them keeps
them; the others get exactly `[add_true_filter_rule()]`, their other keys
unchanged. -/
theorem withRules_obj (fs : List (Str × Json)) :
    hasRules (withRules (.obj fs)) = true ∧
      (hasRules (.obj fs) = true → withRules (.obj fs) = .obj fs) ∧
      (hasRules (.obj fs) = false →
        (withRules (.obj fs)).get? "Rules".toList = some (.arr [addTrueFilterRule]) ∧
          ∀ k, k ≠ "Rules".toList → (withRules (.obj fs)).get? k = findEntry k fs) := by
  cases h : hasRules (.obj fs)
  · have hw : withRules (.obj fs) =
        (Json.obj fs).setField "Rules".toList (.arr [addTrueFilterRule]) := by
      rw [withRules, h, if_neg (by decide)]
    rw [hw]
    refine ⟨?_, by simp, fun _ => ⟨?_, fun k hk => ?_⟩⟩
    · rw [hasRules, Json.get?_setField_obj, if_pos rfl]; rfl
    · rw [Json.get?_setField_obj, if_pos rfl]
    · rw [Json.get?_setField_obj, if_neg (Ne.symm hk)]
  · simp [withRules, h]

theorem withRules_withRules (v : Json) : withRules (withRules v) = withRules v := by
  cases v with
  | obj fs => exact if_pos (withRules_obj fs).1
  | _ => rfl

theorem mapField_mapField (key : Str) {f : Json → Json} (hf : ∀ x, f (f x) = f x) (v : Json) :
    mapField key f (mapField key f v) = mapField key f v := by
  cases v with
  | obj fs =>
    cases h : findEntry key fs with
    | none => simp only [mapField, Json.get?_obj, h]
    | some x =>
      have h' : findEntry key (setEntry key (f x) fs) = some (f x) := by
        rw [findEntry_setEntry, if_pos rfl]
      rw [mapField_some h]
      show mapField key f (.obj (setEntry key (f x) fs)) = _
      rw [mapField_some h', hf]
      show Json.obj (setEntry key (f x) (setEntry key (f x) fs)) = Json.obj (setEntry key (f x) fs)
      rw [setEntry_setEntry]
  | _ => rfl

theorem mapList_mapList (key : Str) {f : Json → Json} (hf : ∀ x, f (f x) = f x) (v : Json) :
    mapList key f (mapList key f v) = mapList key f v :=
  mapField_mapField key (fun x => by cases x <;> simp [List.map_map, Function.comp_def, hf]) v

/-- The patch is idempotent. -/
theorem patched_patched (config : Json) : patched (patched config) = patched config :=
  mapField_mapField _ (mapList_mapList _ (mapList_mapList _ (mapList_mapList _ withRules_withRules)))
    config

theorem named_withRules (v : Json) : named (withRules v) = named v := by
  unfold withRules; split
  · rfl
  · exact named_setField_rules v _

theorem optField_listOf_mapList (key : Str) (p : Json → Bool) (f : Json → Json) (v : Json) :
    optField key (listOf p) (mapList key f v) = optField key (listOf fun x => p (f x)) v := by
  cases v with
  | obj fs =>
    cases h : findEntry key fs with
    | none => simp only [mapList, mapField, Json.get?_obj, h, optField, Option.map_none',
        Option.getD_none]
    | some x =>
      rw [mapList, mapField_some h]
      cases x <;> simp [optField, Json.setField, findEntry_setEntry, h, listOf, List.all_map,
        Function.comp_def, -String.toList]
  | _ => rfl

theorem named_mapList {key : Str} (hk : key ≠ "Name".toList) (f : Json → Json) (v : Json) :
    named (mapList key f v) = named v := by
  cases v with
  | obj fs =>
    cases h : findEntry key fs with
    | none => simp only [mapList, mapField, Json.get?_obj, h]
    | some x =>
      rw [mapList, mapField_some h]
      simp only [named, Json.setField, findEntry_setEntry, if_neg hk]
  | _ => rfl

/-- The patch keeps the expected shape. -/
theorem wellShaped_patched {config : Json} (h : wellShaped config = true) :
    wellShaped (patched config) = true := by
  obtain ⟨fs, userConfig, nss, rfl, hu, hn, hns⟩ := wellShaped_iff.1 h
  let G := mapList "Topics".toList (mapList "Subscriptions".toList withRules)
  let userConfig' := setEntry "Namespaces".toList (.arr (nss.map G)) userConfig
  refine wellShaped_iff.2 ⟨setEntry "UserConfig".toList (.obj userConfig') fs, userConfig',
    nss.map G, by rw [patched, mapField_some hu, mapList_arr hn]; rfl,
    by rw [findEntry_setEntry, if_pos rfl], by rw [findEntry_setEntry, if_pos rfl], ?_⟩
  intro ns hmem
  obtain ⟨ns, hns', rfl⟩ := List.mem_map.1 hmem
  rw [optField_listOf_mapList]
  convert hns ns hns' using 3
  funext t
  rw [named_mapList (by decide), optField_listOf_mapList]
  simp only [named_withRules]

/-- Without `UserConfig`, or when `"Namespaces" in config["UserConfig"]` is
false, the script returns `False` and changes nothing. -/
theorem addRulesToSubscriptions_of_no_namespaces {fs : List (Str × Json)}
    (h : findEntry "UserConfig".toList fs = none ∨ ∃ userConfig,
      findEntry "UserConfig".toList fs = some userConfig ∧
        userConfig.contains "Namespaces".toList = .ok false) :
    addRulesToSubscriptions (.obj fs) = (.ok false, .obj fs) := by
  rcases h with h | ⟨userConfig, hu, hn⟩
  · simp only [addRulesToSubscriptions, Json.contains_obj, h, Option.isSome_none]
  · simp only [addRulesToSubscriptions, Json.contains_obj, hu, Option.isSome_some,
      Json.getItem_obj hu, hn]

/-- `add_rules_to_subscriptions` on a config of the expected shape returns
`True` and leaves the patched config, in which every subscription has truthy
rules: those that had them keep them, the others get exactly
`[add_true_filter_rule()]` with their other keys unchanged; a second call
changes nothing. Without `UserConfig`, or when `"Namespaces"` is not in it,
the call returns `False` and changes nothing. -/
theorem addRulesToSubscriptions_spec (config : Json) :
    (wellShaped config = true →
      addRulesToSubscriptions config = (.ok true, patched config) ∧
        addRulesToSubscriptions (patched config) = (.ok true, patched config)) ∧
    (∀ fs : List (Str × Json),
      hasRules (withRules (.obj fs)) = true ∧
        (hasRules (.obj fs) = true → withRules (.obj fs) = .obj fs) ∧
        (hasRules (.obj fs) = false →
          (withRules (.obj fs)).get? "Rules".toList = some (.arr [addTrueFilterRule]) ∧
            ∀ k, k ≠ "Rules".toList → (withRules (.obj fs)).get? k = findEntry k fs)) ∧
    (∀ fs, config = .obj fs →
      (findEntry "UserConfig".toList fs = none ∨ ∃ userConfig,
        findEntry "UserConfig".toList fs = some userConfig ∧
          userConfig.contains "Namespaces".toList = .ok false) →
      addRulesToSubscriptions config = (.ok false, config)) :=
  ⟨fun h => ⟨addRulesToSubscriptions_eq h, by
      rw [addRulesToSubscriptions_eq (wellShaped_patched h), patched_patched]⟩,
    withRules_obj, fun _ hc h => hc ▸ addRulesToSubscriptions_of_no_namespaces h⟩

/-- A namespace with one topic and two subscriptions, one without rules and
one with a rule. -/
def sampleConfig : Json :=
  .obj [("UserConfig".toList, .obj [("Namespaces".toList, .arr [.obj [("Name".toList, .str "sbemulatorns".toList),
    ("Topics".toList, .arr [.obj [("Name".toList, .str "orders".toList),
      ("Subscriptions".toList, .arr [
        .obj [("Name".toList, .str "inventory".toList)],
        .obj [("Name".toList, .str "audit".toList), ("Rules".toList, .arr [.str "r".toList])]])]])]])])]

theorem addRulesToSubscriptions_sample :
    wellShaped sampleConfig = true ∧
      addRulesToSubscriptions sampleConfig = (.ok true, patched sampleConfig) ∧
        addRulesToSubscriptions (patched sampleConfig) = (.ok true, patched sampleConfig) :=
  have h : wellShaped sampleConfig = true := by decide
  ⟨h, (addRulesToSubscriptions_spec sampleConfig).1 h⟩

/-! ## Every run, also one that raises -/

theorem mapField_of_get? {key : Str} {f : Json → Json} {v x : Json} (h : v.get? key = some x) :
    mapField key f v = v.setField key (f x) := by
  simp only [mapField, h]

theorem mapField_of_get?_none {key : Str} {f : Json → Json} {v : Json} (h : v.get? key = none) :
    mapField key f v = v := by
  simp only [mapField, h]

theorem mapField_setField (key : Str) (f : Json → Json) (v x : Json) :
    mapField key f (v.setField key x) = v.setField key (f x) := by
  cases v with
  | obj fs =>
    rw [mapField_of_get? (by rw [Json.get?_setField_obj, if_pos rfl])]
    show Json.obj (setEntry key (f x) (setEntry key x fs)) = Json.obj (setEntry key (f x) fs)
    rw [setEntry_setEntry]
  | _ => rfl

/-- `f` on each element of a list; any other value unchanged. -/
def mapElems (f : Json → Json) : Json → Json
  | .arr xs => .arr (xs.map f)
  | x => x

theorem mapList_eq (key : Str) (f : Json → Json) : mapList key f = mapField key (mapElems f) := by
  funext v
  unfold mapList
  congr

/-- A loop body that does only what `g` does: `g` maps what it leaves to
what `g` maps its argument to, and when it raises nothing it leaves that. -/
structure Patches (body : Json → Json × Option PyError) (g : Json → Json) : Prop where
  absorbs : ∀ x, g (body x).1 = g x
  done : ∀ x, (body x).2 = none → (body x).1 = g x

theorem Patches.loopUntilRaise {body : Json → Json × Option PyError} {g : Json → Json}
    (h : Patches body g) (xs : List Json) :
    (loopUntilRaise body xs).1.map g = xs.map g ∧
      ((loopUntilRaise body xs).2 = none → (loopUntilRaise body xs).1 = xs.map g) := by
  induction xs with
  | nil => exact ⟨rfl, fun _ => rfl⟩
  | cons x xs ih =>
    have ha := h.absorbs x
    have hd := h.done x
    rcases hb : body x with ⟨y, o⟩
    rw [hb] at ha hd
    cases o with
    | some e =>
      simp only [ServiceBus.loopUntilRaise, hb]
      exact ⟨by rw [List.map_cons, List.map_cons, ha], fun h => nomatch h⟩
    | none =>
      simp only [ServiceBus.loopUntilRaise, hb, List.map_cons]
      exact ⟨by rw [← ha, ih.1], fun h' => by rw [← hd rfl, ih.2 h']⟩

theorem Patches.forIn {body : Json → Json × Option PyError} {g : Json → Json}
    (h : Patches body g) : Patches (fun v => forIn v body) (mapElems g) := by
  constructor
  · intro v
    cases v with
    | arr xs => exact congrArg Json.arr (h.loopUntilRaise xs).1
    | _ => simp only [ServiceBus.forIn]; split <;> rfl
  · intro v hv
    cases v with
    | arr xs => exact congrArg Json.arr ((h.loopUntilRaise xs).2 hv)
    | _ => simp only [ServiceBus.forIn]; split <;> rfl

theorem fieldLoop_cases (key : Str) (body : Json → Json × Option PyError) (v : Json) :
    ((fieldLoop key body v).1 = v ∧ ((fieldLoop key body v).2 = none → v.get? key = none)) ∨
      ∃ xs, v.get? key = some xs ∧
        fieldLoop key body v = (v.setField key (forIn xs body).1, (forIn xs body).2) := by
  unfold fieldLoop
  cases hc : v.contains key with
  | error e => exact .inl ⟨rfl, fun h => nomatch h⟩
  | ok b =>
    cases b with
    | false => exact .inl ⟨rfl, fun _ => Json.get?_of_contains_false hc⟩
    | true =>
      cases hg : v.getItem key with
      | error e => exact .inl ⟨rfl, fun h => nomatch h⟩
      | ok xs =>
        obtain ⟨fs, rfl, hx⟩ := Json.getItem_ok hg
        exact .inr ⟨xs, hx, rfl⟩

theorem Patches.fieldLoop {body : Json → Json × Option PyError} {g : Json → Json}
    (h : Patches body g) (key : Str) : Patches (fieldLoop key body) (mapList key g) := by
  have hf := h.forIn
  rw [mapList_eq]
  constructor
  · intro v
    rcases fieldLoop_cases key body v with ⟨h1, -⟩ | ⟨xs, hx, he⟩
    · rw [h1]
    · rw [he, mapField_setField, show mapElems g (ServiceBus.forIn xs body).1 = mapElems g xs from hf.absorbs xs,
        mapField_of_get? hx]
  · intro v hv
    rcases fieldLoop_cases key body v with ⟨h1, h2⟩ | ⟨xs, hx, he⟩
    · rw [h1, mapField_of_get?_none (h2 hv)]
    · rw [he] at hv ⊢
      rw [show (ServiceBus.forIn xs body).1 = mapElems g xs from hf.done xs hv, mapField_of_get? hx]

theorem withRules_of_needsRules_false {s : Json} (h : needsRules s = .ok false) :
    withRules s = s := by
  cases s with
  | obj fs =>
    rw [needsRules_obj] at h
    have hr : hasRules (.obj fs) = true := by simpa using Except.ok.inj h
    rw [withRules, if_pos hr]
  | arr | str =>
    simp [needsRules, Json.contains, Json.getItem, bind, Except.bind, pure, Except.pure, throw,
      throwThe, MonadExceptOf.throw] at h
    split at h <;> cases h
  | _ => cases h

/-- One turn of the innermost loop leaves the subscription as it was or gives
it its rules, and gives it its rules when it raises nothing. -/
theorem subscriptionStep_cases (topic s : Json) :
    ((subscriptionStep topic s).1 = s ∨ (subscriptionStep topic s).1 = withRules s) ∧
      ((subscriptionStep topic s).2 = none → (subscriptionStep topic s).1 = withRules s) := by
  unfold subscriptionStep
  cases hn : needsRules s with
  | error e => exact ⟨.inl rfl, fun h => nomatch h⟩
  | ok b =>
    cases b with
    | false => exact ⟨.inl rfl, fun _ => (withRules_of_needsRules_false hn).symm⟩
    | true =>
      cases hs : s.setItem "Rules".toList (.arr [addTrueFilterRule]) with
      | error e => exact ⟨.inl rfl, fun h => nomatch h⟩
      | ok s' =>
        obtain ⟨fs, rfl, rfl⟩ := Json.setItem_ok hs
        rw [needsRules_obj] at hn
        have hr : hasRules (.obj fs) = false := by simpa using Except.ok.inj hn
        have hw : withRules (.obj fs) = .obj (setEntry "Rules".toList (.arr [addTrueFilterRule]) fs) := by
          rw [withRules, if_neg (by rw [hr]; decide)]; rfl
        exact ⟨.inr hw.symm, fun _ => hw.symm⟩

theorem subscriptionStep_patches (topic : Json) : Patches (subscriptionStep topic) withRules where
  absorbs s := by
    rcases (subscriptionStep_cases topic s).1 with h | h <;> rw [h]
    exact withRules_withRules s
  done s := (subscriptionStep_cases topic s).2

theorem topicStep_patches : Patches topicStep (mapList "Subscriptions".toList withRules) where
  absorbs t := ((subscriptionStep_patches t).fieldLoop _).absorbs t
  done t := ((subscriptionStep_patches t).fieldLoop _).done t

theorem namespaceStep_patches :
    Patches namespaceStep (mapList "Topics".toList (mapList "Subscriptions".toList withRules)) :=
  topicStep_patches.fieldLoop _

theorem addRulesToSubscriptions_run (config : Json) :
    patched (addRulesToSubscriptions config).2 = patched config ∧
      ((addRulesToSubscriptions config).1 = .ok true →
        (addRulesToSubscriptions config).2 = patched config) ∧
      ((addRulesToSubscriptions config).1 = .ok false → (addRulesToSubscriptions config).2 = config) := by
  -- every exit before the loop leaves the config as it is, and does not return `True`
  unfold addRulesToSubscriptions
  split <;> try exact ⟨rfl, fun h => (nomatch h), fun _ => rfl⟩
  split <;> try exact ⟨rfl, fun h => (nomatch h), fun _ => rfl⟩
  rename_i userConfig hu
  split <;> try exact ⟨rfl, fun h => (nomatch h), fun _ => rfl⟩
  split <;> try exact ⟨rfl, fun h => (nomatch h), fun _ => rfl⟩
  rename_i nss hn
  obtain ⟨fs, rfl, hfs⟩ := Json.getItem_ok hu
  obtain ⟨ufs, rfl, hufs⟩ := Json.getItem_ok hn
  let G := mapList "Topics".toList (mapList "Subscriptions".toList withRules)
  have hpatch : ∀ ys, mapElems G ys = mapElems G nss →
      patched ((Json.obj fs).setField "UserConfig".toList
        ((Json.obj ufs).setField "Namespaces".toList ys)) = patched (.obj fs) := fun ys hys => by
    rw [patched, mapList_eq "Namespaces".toList, mapField_setField, mapField_setField, hys,
      mapField_some hfs, mapField_some hufs]
  have habs : mapElems G (forIn nss namespaceStep).1 = mapElems G nss :=
    namespaceStep_patches.forIn.absorbs nss
  have hdone : (forIn nss namespaceStep).2 = none → (forIn nss namespaceStep).1 = mapElems G nss :=
    namespaceStep_patches.forIn.done nss
  dsimp only
  generalize forIn nss namespaceStep = r at habs hdone ⊢
  obtain ⟨r1, r2⟩ := r
  cases r2 with
  | some e => exact ⟨hpatch r1 habs, fun h => (nomatch h), fun h => nomatch h⟩
  | none =>
    refine ⟨hpatch r1 habs, fun _ => ?_, fun h => nomatch h⟩
    rw [hdone rfl, patched, mapList_eq "Namespaces".toList, mapField_some hfs, mapField_some hufs]

/-! ## What a run leaves behind -/

/-- `v'` is `v`, or `v` with the value under `key` replaced by one that `R`
relates to it. -/
def FieldRel (key : Str) (R : Json → Json → Prop) (v v' : Json) : Prop :=
  v' = v ∨ ∃ x x', v.get? key = some x ∧ R x x' ∧ v' = v.setField key x'

/-- `v'` is `v`, or `v` is a list and `v'` is the list of its elements, each
replaced by one that `R` relates to it. -/
def ElemsRel (R : Json → Json → Prop) (v v' : Json) : Prop :=
  v' = v ∨ ∃ xs ys, v = .arr xs ∧ v' = .arr ys ∧ List.Forall₂ R xs ys

/-- A subscription left as it was, or given its rules as the patch gives them. -/
def SubscriptionRel (s s' : Json) : Prop :=
  s' = s ∨ s' = withRules s

/-- The configs a run can leave, also one that an exception stops: the
config in which some subscriptions of some topics of some namespaces of
`UserConfig` have been given their rules, and nothing else has changed. The
levels are those of `patched`. -/
def PartlyPatched : Json → Json → Prop :=
  FieldRel "UserConfig".toList <| FieldRel "Namespaces".toList <| ElemsRel <|
    FieldRel "Topics".toList <| ElemsRel <|
      FieldRel "Subscriptions".toList <| ElemsRel SubscriptionRel

section
variable {body : Json → Json × Option PyError} {R : Json → Json → Prop}

theorem loopUntilRaise_forall₂ (hR : ∀ x, R x x) (h : ∀ x, R x (body x).1) :
    ∀ xs, List.Forall₂ R xs (loopUntilRaise body xs).1
  | [] => .nil
  | x :: xs => by
    have hx := h x
    rw [loopUntilRaise]
    rcases hb : body x with ⟨y, _ | e⟩ <;> rw [hb] at hx
    · exact .cons hx (loopUntilRaise_forall₂ hR h xs)
    · exact .cons hx (List.forall₂_same.2 fun x _ => hR x)

theorem forIn_elemsRel (hR : ∀ x, R x x) (h : ∀ x, R x (body x).1) (v : Json) :
    ElemsRel R v (forIn v body).1 := by
  cases v with
  | arr xs => exact .inr ⟨xs, _, rfl, rfl, loopUntilRaise_forall₂ hR h xs⟩
  | _ => left; simp only [ServiceBus.forIn]; split <;> rfl

theorem fieldLoop_fieldRel (hR : ∀ x, R x x) (h : ∀ x, R x (body x).1) (key : Str) (v : Json) :
    FieldRel key (ElemsRel R) v (fieldLoop key body v).1 := by
  rcases fieldLoop_cases key body v with ⟨h1, -⟩ | ⟨xs, hx, he⟩
  · exact .inl h1
  · rw [he]
    exact .inr ⟨xs, _, hx, forIn_elemsRel hR h xs, rfl⟩

end

theorem fieldRel_refl (key : Str) (R : Json → Json → Prop) (v : Json) : FieldRel key R v v := .inl rfl

theorem topicStep_fieldRel (t : Json) :
    FieldRel "Subscriptions".toList (ElemsRel SubscriptionRel) t (topicStep t).1 :=
  fieldLoop_fieldRel (fun _ => .inl rfl) (fun s => (subscriptionStep_cases t s).1) _ t

theorem namespaceStep_fieldRel (ns : Json) :
    FieldRel "Topics".toList (ElemsRel (FieldRel "Subscriptions".toList (ElemsRel SubscriptionRel)))
      ns (namespaceStep ns).1 :=
  fieldLoop_fieldRel (fieldRel_refl _ _) topicStep_fieldRel _ ns

theorem partlyPatched_run (config : Json) : PartlyPatched config (addRulesToSubscriptions config).2 := by
  unfold addRulesToSubscriptions
  split <;> try exact .inl rfl
  split <;> try exact .inl rfl
  rename_i userConfig hu
  split <;> try exact .inl rfl
  split <;> try exact .inl rfl
  rename_i nss hn
  obtain ⟨fs, rfl, hfs⟩ := Json.getItem_ok hu
  obtain ⟨ufs, rfl, hufs⟩ := Json.getItem_ok hn
  dsimp only
  split <;>
  exact .inr ⟨_, _, (Json.get?_obj fs _).trans hfs, .inr ⟨_, _, (Json.get?_obj ufs _).trans hufs,
    forIn_elemsRel (fieldRel_refl _ _) namespaceStep_fieldRel nss, rfl⟩, rfl⟩

/-- **A run changes only what the patch changes.** Whatever the config, and
whether `add_rules_to_subscriptions` returns or raises part way, the config it
leaves is the given one in which some subscriptions under
`UserConfig.Namespaces[*].Topics[*].Subscriptions[*]` have been given their
rules as the patch gives them, and nothing else has changed; so the patch
takes it to the patched config. When it returns `True` it has patched the
whole config, whatever its shape; when it returns `False` it has changed
nothing. -/
theorem addRulesToSubscriptions_patches (config : Json) :
    PartlyPatched config (addRulesToSubscriptions config).2 ∧
      patched (addRulesToSubscriptions config).2 = patched config ∧
      ((addRulesToSubscriptions config).1 = .ok true →
        (addRulesToSubscriptions config).2 = patched config) ∧
      ((addRulesToSubscriptions config).1 = .ok false → (addRulesToSubscriptions config).2 = config) :=
  ⟨partlyPatched_run config, addRulesToSubscriptions_run config⟩

/-! ## The script -/

/-- `main` on the config `json.load` read from stdin: the config `json.dump`
writes to stdout, if any, and the exit status. `sys.exit(1)` raises
`SystemExit`, which `except Exception` does not catch; an exception that
`add_rules_to_subscriptions` raises is caught, and the script exits with 1. -/
def main (config : Json) : Option Json × Nat :=
  match addRulesToSubscriptions config with
  | (.ok true, config) => (some config, 0)
  | (.ok false, _) => (none, 1)
  | (.error _, _) => (none, 1)

/-- **The script never writes a half-patched config.** Whatever config it
reads, `main` writes the fully patched config and exits with 0, or writes
nothing and exits with 1, also when `add_rules_to_subscriptions` raises after
changing part of the config; on a config of the expected shape it writes
the patched config. -/
theorem main_writes_patched_or_nothing (config : Json) :
    (main config = (some (patched config), 0) ∨ main config = (none, 1)) ∧
      (wellShaped config = true → main config = (some (patched config), 0)) := by
  refine ⟨?_, fun h => by rw [main, addRulesToSubscriptions_eq h]⟩
  have hrun := (addRulesToSubscriptions_run config).2.1
  unfold main
  rcases hr : addRulesToSubscriptions config with ⟨_ | _ | _, c⟩
  · exact .inr rfl
  · exact .inr rfl
  · rw [hr] at hrun
    cases hrun rfl
    exact .inl rfl

end WhizbangScripts.ServiceBus