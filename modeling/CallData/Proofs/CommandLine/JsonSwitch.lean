/-
CallData/Proofs/CommandLine/JsonSwitch.lean

The switch that asks for output for programs can be put in front of the arguments.

Going through the arguments, all that looks at the switches found so far is the check that none is
given twice.  So the arguments are gone through alike with the switch found in front of the others
(`withJson`), as long as they do not give it themselves; and what has been found is never lost, so
the end tells whether they do.  Both are kept by every operation and are therefore stated together
(`Follows`), of an operation and its counterpart.

Main result: `parse_cons_json`.
-/
import CallData.CommandLine.Request
import CallData.Proofs.Results

namespace CallData.CommandLine

namespace Found

/-- With the switch found in front of the others. -/
def withJson (found : Found) : Found := { found with given := .json :: found.given }

end Found

variable {ε : Type} {found next : Found} {x x' : Except ε Found}
variable {switch : Switch} {text value : String} {g : Given}

/-! ### Operations that follow each other -/

/-- `x` comes from `found` and loses nothing of it; `x'` is its counterpart with the switch in
front, unless the switch is found by `x`. -/
structure Follows (found : Found) (x x' : Except ε Found) : Prop where
  grows : ∀ next, x = .ok next → found.given <+: next.given
  follows : ∀ next, x = .ok next → next.has .json = false → x' = .ok next.withJson

theorem has_eq_false_of_grown (h : found.given <+: next.given)
    (hnext : next.has switch = false) : found.has switch = false := by
  obtain ⟨more, hmore⟩ := h
  rw [Found.has, ← hmore, List.any_append, Bool.or_eq_false_iff] at hnext
  exact hnext.1

theorem Follows.error {e : ε} : Follows found (.error e) x' :=
  ⟨fun _ h => (nomatch h), fun _ h => (nomatch h)⟩

theorem Follows.ok (h : found.given <+: next.given) :
    Follows (ε := ε) found (.ok next) (.ok next.withJson) := by
  constructor
  · rintro _ ⟨⟩
    exact h
  · rintro _ ⟨⟩ -
    rfl

theorem Follows.bind {f : Found → Except ε Found} (hx : Follows found x x')
    (hf : ∀ next, Follows next (f next) (f next.withJson)) :
    Follows found (x >>= f) (x' >>= f) := by
  constructor
  · intro last h
    obtain ⟨next, hnext, hlast⟩ := bind_eq_ok_iff.mp h
    exact (hx.grows next hnext).trans ((hf next).grows last hlast)
  · intro last h hjson
    obtain ⟨next, hnext, hlast⟩ := bind_eq_ok_iff.mp h
    have hbefore := has_eq_false_of_grown ((hf next).grows last hlast) hjson
    rw [hx.follows next hnext hbefore]
    exact (hf next).follows last hlast hjson

theorem Follows.orHalt {x x' : Except UsageError Found} (h : Follows found x x') :
    Follows found (orHalt x) (CommandLine.orHalt x') := by
  rcases x with e | next
  · exact .error
  · constructor
    · rintro _ ⟨⟩
      exact h.grows next rfl
    · rintro _ ⟨⟩ hjson
      rw [h.follows next rfl hjson]
      rfl

/-! ### Switches -/

namespace Found

theorem has_withJson (h : switch ≠ .json) : found.withJson.has switch = found.has switch := by
  have hne : (Switch.json == switch) = false := beq_eq_false_iff_ne.mpr (Ne.symm h)
  rw [has, withJson, List.any_cons, Given.switch, hne, Bool.false_or, has]

theorem checkFirst_withJson (h : switch ≠ .json) :
    found.withJson.checkFirst switch = found.checkFirst switch := by
  rw [checkFirst, checkFirst, has_withJson h]

end Found

/-- Adding a switch, with its check that it is not given twice. -/
theorem follows_add (g : Given) : Follows found
    (found.checkFirst g.switch >>= fun _ => .ok { found with given := found.given ++ [g] })
    (found.withJson.checkFirst g.switch >>= fun _ =>
      .ok { found.withJson with given := found.withJson.given ++ [g] }) := by
  by_cases hjson : g.switch = .json
  · -- the switch itself is found here
    rcases found.checkFirst g.switch with e | _
    · exact .error
    · constructor
      · rintro _ ⟨⟩
        exact List.prefix_append _ _
      · rintro _ ⟨⟩ hnone
        simp [Found.has, hjson] at hnone
  · rw [Found.checkFirst_withJson hjson]
    rcases found.checkFirst g.switch with e | _
    · exact .error
    · exact .ok (List.prefix_append _ _)

theorem switch_of_read (h : Found.read switch text = .ok g) : g.switch = switch := by
  cases switch
  case expect =>
    rw [Found.read] at h
    split at h <;> cases h
    rfl
  case setHexMark | setFormat =>
    rw [Found.read, Found.readChoice] at h
    split at h
    · cases h
    · split at h <;> cases h
      rfl
  all_goals cases h
  all_goals rfl

theorem follows_accept (found : Found) (switch : Switch) (text : String) :
    Follows found (found.accept switch text) (found.withJson.accept switch text) := by
  rcases hread : Found.read switch text with e | g
  · rw [Found.accept, hread]
    rcases found.checkFirst switch with _ | _
    · exact .error
    · exact .error
  · obtain rfl := switch_of_read hread
    rw [Found.accept, Found.accept, hread]
    exact follows_add g

theorem follows_settle : Follows found found.settle found.withJson.settle := by
  obtain ⟨given, function, pending⟩ := found
  rcases pending with _ | ⟨switch, _ | text⟩
  · exact .ok (List.prefix_refl _)
  · exact .error
  · have haccept := follows_accept ⟨given, function, none⟩ switch text
    exact ⟨haccept.grows, haccept.follows⟩

theorem follows_addValued (attached : Option String) :
    Follows found (found.addValued switch attached) (found.withJson.addValued switch attached) := by
  refine follows_settle.bind fun settled => ?_
  cases attached with
  | none => exact .ok (List.prefix_refl _)
  | some value => exact follows_accept settled switch value

theorem follows_addFlag : Follows found (found.addFlag g) (found.withJson.addFlag g) :=
  follows_settle.bind fun _ => follows_add g

/-! ### Arguments -/

theorem follows_takeBare :
    Follows found (takeBare found switch) (takeBare found.withJson switch) := by
  cases switch
  case json | showSettings => exact follows_addFlag.orHalt
  case help | version =>
    rw [takeBare]
    rcases orHalt found.settle with _ | _
    · exact .error
    · exact .error
  all_goals exact (follows_addValued none).orHalt

theorem follows_takeAttached :
    Follows found (takeAttached found switch value) (takeAttached found.withJson switch value) := by
  rw [takeAttached, takeAttached]
  split
  · exact (follows_addValued (some value)).orHalt
  · exact .error

theorem follows_take :
    Follows found (take none found text) (take none found.withJson text) := by
  have hwaiting : found.withJson.waiting? = found.waiting? := rfl
  rw [take, take, hwaiting]
  split
  · exact .ok (List.prefix_refl _)
  · unfold takeLong
    split
    · exact follows_takeAttached
    · exact follows_takeBare
    · exact .error
  · unfold takeShort
    split
    · split
      · split
        · exact follows_takeAttached
        · exact follows_takeBare
      · exact follows_takeBare
    · exact .error
  · exact .error

/-- An argument with more to come after it. -/
theorem follows_step (h : step none found text = .ok (.more next)) :
    found.given <+: next.given ∧
      (next.has .json = false → step none found.withJson text = .ok (.more next.withJson)) := by
  have hwaiting : found.withJson.waiting? = found.waiting? := rfl
  have htake (htaken : (take none found text).map Next.more = .ok (.more next)) :
      found.given <+: next.given ∧ (next.has .json = false →
        (take none found.withJson text).map Next.more = .ok (.more next.withJson)) := by
    rcases hnext : take none found text with e | taken
    · rw [hnext] at htaken
      cases htaken
    · rw [hnext] at htaken
      obtain rfl : taken = next := Next.more.inj (Except.ok.inj htaken)
      refine ⟨follows_take.grows _ hnext, fun hjson => ?_⟩
      rw [follows_take.follows _ hnext hjson]
      rfl
  rw [step, hwaiting]
  rw [step] at h
  split at h
  · split at h
    · -- the argument is the value of a switch, whatever it looks like
      rename_i hany
      rw [if_pos hany]
      cases h
      exact ⟨List.prefix_refl _, fun _ => rfl⟩
    · rename_i hany
      split at h
      · cases h
      · rename_i hstop
        rw [if_neg hany, if_neg hstop]
        exact htake h
  · split at h
    · cases h
    · rename_i hstop
      rw [if_neg hstop]
      exact htake h

theorem scan_withJson {args : List String} {s : Scanned} (h : scan found args = .ok s) :
    found.given <+: s.before.given ∧ (s.before.has .json = false →
      scan found.withJson args = .ok { s with before := s.before.withJson }) := by
  induction args generalizing found with
  | nil =>
    obtain ⟨settled, -, h⟩ := bind_eq_ok_iff.mp h
    cases h
  | cons text rest ih =>
    have hverb : verbOf? found.withJson text = verbOf? found text := rfl
    have hwaiting : found.withJson.waiting? = found.waiting? := rfl
    rw [scan, hverb, hwaiting]
    rw [scan] at h
    split at h
    · obtain ⟨after, hafter, h⟩ := bind_eq_ok_iff.mp h
      split at h
      · cases h
      · rename_i hfunction
        obtain ⟨before, hbefore, h⟩ := bind_eq_ok_iff.mp h
        cases h
        refine ⟨follows_settle.orHalt.grows _ hbefore, fun hjson => ?_⟩
        rw [hafter, ok_bind, if_neg hfunction, follows_settle.orHalt.follows _ hbefore hjson]
        rfl
    · split at h
      · cases h
      · rename_i hhelp
        rw [if_neg hhelp]
        obtain ⟨remains, hstep, h⟩ := bind_eq_ok_iff.mp h
        cases remains with
        | more next =>
          obtain ⟨hgrows, hfollows⟩ := follows_step hstep
          obtain ⟨hlater, hscan⟩ := ih h
          refine ⟨hgrows.trans hlater, fun hjson => ?_⟩
          rw [hfollows (has_eq_false_of_grown hlater hjson), ok_bind]
          exact hscan hjson
        | onlyPlain next =>
          -- no command stands after the stop mark
          obtain ⟨last, -, h⟩ := bind_eq_ok_iff.mp h
          obtain ⟨settled, -, h⟩ := bind_eq_ok_iff.mp h
          cases h

/-- **The switch can be put in front** of arguments that do not ask for output for programs; they
then do, and ask for the same command. -/
theorem parse_cons_json {args : List String} {command : Command}
    (h : parse args = .ok ⟨false, command⟩) : parse ("--json" :: args) = .ok ⟨true, command⟩ := by
  have hfirst : scan .nothing ("--json" :: args) = scan Found.nothing.withJson args := rfl
  rw [parse] at h ⊢
  rcases hscan : scan .nothing args with e | s
  · rw [hscan] at h
    cases h
  · rw [hscan] at h
    obtain ⟨hjson, hcommand⟩ := Request.mk.inj (Except.ok.inj h)
    have hbefore : s.before.has .json = false := (Bool.or_eq_false_iff.mp hjson).1
    rw [hfirst, (scan_withJson hscan).2 hbefore]
    show Except.ok (Request.mk _ _) = _
    rw [← hcommand]
    rfl

end CallData.CommandLine
