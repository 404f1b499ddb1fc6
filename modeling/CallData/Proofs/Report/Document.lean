/-
CallData/Proofs/Report/Document.lean

The document that shows a report.

However a report is put together, each field has the value that it was given last
(`get?_build`).  The document lists the fields in the order of their keys, so it is the same for all
ways to put together the same fields, and it is read back as the object with these members.

Main result: `render_build`.
-/
import CallData.Proofs.Json.ReadBack
import CallData.Proofs.Report
import CallData.Proofs.Results
import CallData.Report.Step

namespace CallData

open Json (Scalar)

/-! ### Members of a document -/

namespace Json

/-- Different scalars are written for different values. -/
theorem Scalar.toJson_injective {s t : Scalar} (h : s.toJson = t.toJson) : s = t := by
  cases s <;> cases t <;> simp only [toJson, Json.string.injEq, Json.bool.injEq, Json.number.injEq,
    reduceCtorEq] at h
  case text.text => rw [h]
  case flag.flag => rw [h]
  case count.count n m =>
    have hnat : n.toNat = m.toNat := by
      have hwhole := congrArg (fun number : Number => number.whole.toNat) h
      simpa [Number.ofNat] using hwhole
    rw [UInt64.toNat_inj.mp hnat]

theorem entries_injective {members members' : List (String × Scalar)}
    (h : entries members = entries members') : members = members' := by
  refine (List.map_inj_right ?_).mp h
  intro member member' heq
  obtain ⟨hkey, hvalue⟩ := Prod.mk.inj heq
  exact Prod.ext hkey (Scalar.toJson_injective hvalue)

theorem keys_entries (members : List (String × Scalar)) :
    (entries members).map Prod.fst = members.map Prod.fst := by
  rw [entries, List.map_map]
  rfl

theorem lookup_entries (members : List (String × Scalar)) (key : String) :
    (entries members).lookup key = (members.lookup key).map Scalar.toJson := by
  induction members with
  | nil => rfl
  | cons member rest ih =>
    obtain ⟨k, v⟩ := member
    show ((k, v.toJson) :: entries rest).lookup key = _
    rw [List.lookup_cons, List.lookup_cons, ih]
    rcases key == k <;> rfl

end Json

namespace Report

variable {key : String} {value : Scalar} {steps : List Step}

/-! ### Steps -/

/-- The field that a step gives a value. -/
def Step.field? : Step → Option (String × Scalar)
  | text key content => some (key, .text content)
  | flag key value => some (key, .flag value)
  | count key value => some (key, .count value)
  | say _ => none

/-- The value that a step gives to the field of this key. -/
def Step.given? (key : String) (step : Step) : Option Scalar :=
  step.field?.bind fun field => if key = field.1 then some field.2 else none

/-- The value that the field of this key is given last. -/
def lastGiven? (key : String) (steps : List Step) : Option Scalar :=
  (steps.filterMap (Step.given? key)).getLast?

theorem lastGiven?_cons (step : Step) :
    lastGiven? key (step :: steps) = (lastGiven? key steps).or (step.given? key) :=
  getLast?_filterMap_cons _ step steps

/-- A step sets the field that it gives a value, and no other. -/
theorem get?_apply (r : Report) (step : Step) :
    (step.apply r).get? key = (step.given? key).or (r.get? key) := by
  cases step with
  | say message => rfl
  | text k content | flag k value | count k value =>
    by_cases h : key = k <;> simp [Step.apply, Step.given?, Step.field?, h]

theorem sorted_apply {r : Report} (h : Sorted r.fields) (step : Step) :
    Sorted (step.apply r).fields := by
  cases step with
  | say message => exact h
  | text key content | flag key value | count key value => exact sorted_insertField h

/-! ### All steps -/

theorem get?_foldl (r : Report) (steps : List Step) :
    (steps.foldl Step.apply r).get? key = (lastGiven? key steps).or (r.get? key) := by
  induction steps generalizing r with
  | nil => rfl
  | cons step rest ih =>
    rw [List.foldl_cons, ih, get?_apply, lastGiven?_cons, Option.or_assoc]

theorem get?_build (steps : List Step) : (build steps).get? key = lastGiven? key steps := by
  rw [build, get?_foldl]
  exact Option.or_none

theorem sorted_foldl {r : Report} (h : Sorted r.fields) (steps : List Step) :
    Sorted (steps.foldl Step.apply r).fields := by
  induction steps generalizing r with
  | nil => exact h
  | cons step rest ih => exact ih (sorted_apply h step)

theorem sorted_build (steps : List Step) : Sorted (build steps).fields :=
  sorted_foldl (r := .empty) List.Pairwise.nil steps

theorem Step.given?_eq_some_iff {step : Step} :
    step.given? key = some value ↔ step.field? = some (key, value) := by
  rw [given?, Option.bind_eq_some_iff]
  constructor
  · rintro ⟨⟨k, v⟩, hfield, hgiven⟩
    split at hgiven
    · rename_i heq
      subst heq
      obtain rfl := Option.some.inj hgiven
      exact hfield
    · contradiction
  · intro h
    exact ⟨(key, value), h, if_pos rfl⟩

/-- A key has a last value if some step gives it one. -/
theorem isSome_lastGiven?_iff : (lastGiven? key steps).isSome ↔
    ∃ step ∈ steps, ∃ value, step.field? = some (key, value) := by
  rw [lastGiven?, List.getLast?_filterMap, List.findSome?_isSome_iff]
  simp only [List.mem_reverse, Option.isSome_iff_exists, Step.given?_eq_some_iff]

/-- The keys are those that have a value. -/
theorem mem_keys_iff {fields : List (String × Scalar)} :
    key ∈ fields.map Prod.fst ↔ (fields.lookup key).isSome := by
  rw [List.lookup_isSome_iff, List.mem_map]
  refine exists_congr fun field => and_congr_right fun _ => ?_
  rw [beq_iff_eq, eq_comm]

/-! ### Documents -/

theorem parse?_render (r : Report) : ∃ text, r.render true = some text ∧
    Json.parse? text = some (.object (Json.entries r.fields)) :=
  ⟨_, rfl, Json.parse?_of_isReadAs (Json.isReadAs_prettyObject r.fields)⟩

theorem render_eq_iff {r r' : Report} : r.render true = r'.render true ↔ r.fields = r'.fields := by
  constructor
  · intro h
    obtain ⟨text, htext, hparse⟩ := parse?_render r
    obtain ⟨text', htext', hparse'⟩ := parse?_render r'
    obtain rfl : text = text' := Option.some.inj (htext.symm.trans (h.trans htext'))
    have hobject := Option.some.inj (hparse.symm.trans hparse')
    exact Json.entries_injective (Json.object.inj hobject)
  · intro h
    rw [render, render, h]
    rfl

/-! ### Main result -/

/-- **The document shows the last values, and nothing else.**  It is read back as an object with the
keys that were given a value, each of them once and with the value it was given last.  Two ways to
put a report together have the same document exactly if they give each key the same value last, so
neither their order, nor overwritten values, nor the message is seen in it. -/
theorem render_build (steps : List Step) :
    (∃ text members, (build steps).render true = some text ∧
      Json.parse? text = some (.object members) ∧ (members.map Prod.fst).Nodup ∧
      (∀ key, key ∈ members.map Prod.fst ↔
        ∃ step ∈ steps, ∃ value, step.field? = some (key, value)) ∧
      ∀ key, members.lookup key = (lastGiven? key steps).map Scalar.toJson) ∧
    ∀ steps', (build steps).render true = (build steps').render true ↔
      ∀ key, lastGiven? key steps = lastGiven? key steps' := by
  have hlookup (steps : List Step) (key : String) :
      (build steps).fields.lookup key = lastGiven? key steps := get?_build steps
  constructor
  · obtain ⟨text, htext, hparse⟩ := parse?_render (build steps)
    refine ⟨text, _, htext, hparse, ?_, ?_, ?_⟩
    · rw [Json.keys_entries]
      exact (sorted_build steps).nodup_keys
    · intro key
      rw [Json.keys_entries, mem_keys_iff, hlookup, isSome_lastGiven?_iff]
    · intro key
      rw [Json.lookup_entries, hlookup]
  · intro steps'
    rw [render_eq_iff]
    constructor
    · intro h key
      rw [← hlookup, ← hlookup, h]
    · intro h
      refine (sorted_build steps).ext (sorted_build steps') fun key => ?_
      rw [hlookup, hlookup, h]

/-- The fields stand in the order of their keys, whatever was said or overwritten in between. -/
example : (build [.count "size" 1, .say "done", .flag "match" true, .count "size" 2]).fields =
    [("match", .flag true), ("size", .count 2)] := by decide

end Report

end CallData
