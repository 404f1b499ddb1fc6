/-
CallData/Proofs/Report.lean

The fields of a report by their keys.

A field has the value that it was given last; giving it one leaves the other fields alone, and so
does the message.  The fields stay sorted, so they are determined by their values (`Sorted.ext`).
-/
import CallData.Report

namespace CallData.Report

open Json (Scalar)

variable {fields : List (String × Scalar)} {key key' : String} {value : Scalar}

/-- The value of a field. -/
def get? (r : Report) (key : String) : Option Scalar := r.fields.lookup key

theorem lookup_insertField_self : (insertField key value fields).lookup key = some value := by
  induction fields with
  | nil => simp [insertField]
  | cons entry rest ih =>
    obtain ⟨k, v⟩ := entry
    rw [insertField]
    split
    · simp
    · split
      · simp
      · rename_i hne
        rw [List.lookup_cons, beq_eq_false_iff_ne.mpr hne]
        exact ih

theorem lookup_insertField_of_ne (h : key' ≠ key) :
    (insertField key value fields).lookup key' = fields.lookup key' := by
  have hkey : (key' == key) = false := beq_eq_false_iff_ne.mpr h
  induction fields with
  | nil => simp [insertField, List.lookup_cons, hkey]
  | cons entry rest ih =>
    obtain ⟨k, v⟩ := entry
    rw [insertField]
    split
    · rw [List.lookup_cons, hkey]
    · split
      · rename_i heq
        obtain rfl := heq
        rw [List.lookup_cons, List.lookup_cons, hkey]
      · rw [List.lookup_cons, List.lookup_cons, ih]

theorem get?_field (r : Report) :
    (r.field key value).get? key' = if key' = key then some value else r.get? key' := by
  split
  · rename_i heq
    obtain rfl := heq
    exact lookup_insertField_self
  · rename_i hne
    exact lookup_insertField_of_ne hne

@[simp] theorem get?_text (r : Report) {content : String} :
    (r.text key content).get? key' = if key' = key then some (.text content) else r.get? key' :=
  get?_field r

@[simp] theorem get?_flag (r : Report) {b : Bool} :
    (r.flag key b).get? key' = if key' = key then some (.flag b) else r.get? key' :=
  get?_field r

@[simp] theorem get?_count (r : Report) {n : UInt64} :
    (r.count key n).get? key' = if key' = key then some (.count n) else r.get? key' :=
  get?_field r

@[simp] theorem get?_say (r : Report) {message : String} :
    (r.say message).get? key' = r.get? key' := rfl

/-! ### Sorted fields -/

/-- Each field has a greater key than the one before. -/
def Sorted (fields : List (String × Scalar)) : Prop := fields.Pairwise fun a b => a.1 < b.1

variable {fields' : List (String × Scalar)} {entry : String × Scalar}

theorem mem_insertField (h : entry ∈ insertField key value fields) :
    entry = (key, value) ∨ entry ∈ fields := by
  induction fields with
  | nil => exact .inl (List.mem_singleton.mp h)
  | cons first rest ih =>
    obtain ⟨k, v⟩ := first
    rw [insertField] at h
    split at h
    · exact List.mem_cons.mp h
    · split at h
      · exact (List.mem_cons.mp h).imp_right (List.mem_cons_of_mem _)
      · rcases List.mem_cons.mp h with rfl | hrest
        · exact .inr List.mem_cons_self
        · exact (ih hrest).imp_right (List.mem_cons_of_mem _)

theorem sorted_insertField (h : Sorted fields) : Sorted (insertField key value fields) := by
  induction fields with
  | nil => exact List.pairwise_singleton _ _
  | cons first rest ih =>
    obtain ⟨k, v⟩ := first
    obtain ⟨hfirst, hrest⟩ := List.pairwise_cons.mp h
    rw [insertField]
    split
    · rename_i hlt
      refine List.pairwise_cons.mpr ⟨?_, h⟩
      intro entry hentry
      rcases List.mem_cons.mp hentry with rfl | hentry
      · exact hlt
      · exact String.lt_trans hlt (hfirst entry hentry)
    · split
      · rename_i heq
        subst heq
        exact List.pairwise_cons.mpr ⟨hfirst, hrest⟩
      · rename_i hle hne
        have hlt : k < key := Std.lt_of_le_of_ne (String.not_lt.mp hle) (Ne.symm hne)
        refine List.pairwise_cons.mpr ⟨?_, ih hrest⟩
        intro entry hentry
        rcases mem_insertField hentry with rfl | hentry
        · exact hlt
        · exact hfirst entry hentry

theorem Sorted.nodup_keys (h : Sorted fields) : (fields.map Prod.fst).Nodup := by
  refine List.pairwise_map.mpr (h.imp fun hlt heq => ?_)
  exact String.lt_irrefl _ (heq ▸ hlt)

theorem Sorted.nodup (h : Sorted fields) : fields.Nodup :=
  (List.pairwise_map.mp h.nodup_keys).imp fun hne heq => hne (congrArg Prod.fst heq)

/-- A key stands in one field only, so its value is the one that is found. -/
theorem Sorted.mem_iff (h : Sorted fields) :
    (key, value) ∈ fields ↔ fields.lookup key = some value := by
  induction fields with
  | nil => simp
  | cons first rest ih =>
    obtain ⟨k, v⟩ := first
    obtain ⟨hfirst, hrest⟩ := List.pairwise_cons.mp h
    rw [List.mem_cons, List.lookup_cons, ih hrest]
    by_cases heq : key = k
    · subst heq
      have hnone : rest.lookup key ≠ some value := fun hlookup =>
        String.lt_irrefl key (hfirst _ ((ih hrest).mpr hlookup))
      simp [hnone, eq_comm]
    · simp [heq, beq_eq_false_iff_ne.mpr heq]

/-- Sorted fields are determined by the values of the keys. -/
theorem Sorted.ext (h : Sorted fields) (h' : Sorted fields')
    (hlookup : ∀ key, fields.lookup key = fields'.lookup key) : fields = fields' := by
  have hperm : fields.Perm fields' := by
    refine (List.perm_ext_iff_of_nodup h.nodup h'.nodup).mpr fun ⟨key, value⟩ => ?_
    rw [h.mem_iff, h'.mem_iff, hlookup]
  refine hperm.eq_of_pairwise (fun a b _ _ hab hba => ?_) h h'
  exact absurd (String.lt_trans hab hba) (String.lt_irrefl a.1)

end CallData.Report
