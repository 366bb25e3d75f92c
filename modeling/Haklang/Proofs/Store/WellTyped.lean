import Haklang.Increment
import Haklang.Random.Draw
import Haklang.Store
import Haklang.Value.Order

/-!
# Variables that hold what their types say

A variable is well-typed if it holds a value of its type and no truth value. The first does not say
the second, since a truth value counts as an integer. A store is well-typed if the variables of all
its frames are, and if there is no truth value on its stack either.

Nothing but `Store.put` writes a variable, so all that there is to know about an operation is what
it writes. Most operations write a variable that is well-typed whatever was there before: its tag is
that of the value, or the value was converted to the tag. A change of a value in place is different.
An increment and the sorting of a list keep the type of the value that they start from, so what they
write is well-typed only if the variable was. `Store.Admits` covers both, and a write that the store
admits keeps the store well-typed (`Store.WellTyped.put`). In either case such an operation leaves a
variable declared as it was (`Store.Retains`).
-/

namespace Haklang

/-! ### Values and variables -/

/-- A value that is no truth value. -/
def Value.Plain (v : Value) : Prop := ∀ b, v ≠ bool b

/-- A variable that holds a value of its type, and no truth value. -/
structure Variable.WellTyped (v : Variable) : Prop where
  /-- What it holds is no truth value. -/
  plain : v.value.Plain
  /-- What it holds has its type. -/
  typeTag : v.value.typeTag = v.tag

namespace Value

/-- No type starts out with a truth value. -/
theorem plain_default (t : TypeTag) : (Value.default t).Plain := by
  rcases t with (_ | _ | _) | t <;> intro b hb <;> cases hb

/-- What a variable stores is no truth value. -/
theorem plain_stored (v : Value) : v.stored.Plain := by
  cases v <;> intro b hb <;> cases hb

/-- What a parameter is given is no truth value. -/
theorem plain_argument (v : Value) : v.argument.Plain := by
  cases v <;> intro b hb <;> cases hb

/-- A conversion never gives a truth value, since no type tag names them. -/
theorem plain_of_convert? {t : TypeTag} {v w : Value} (h : v.convert? t = some w) : w.Plain := by
  intro b hb
  subst hb
  rcases t with (_ | p | _) | t
  · cases v <;> simp [convert?] at h
  · simp [convert?] at h
  · cases v <;> simp [convert?] at h
  · cases v <;> simp [convert?] at h

end Value

/-- No truth value is drawn. -/
theorem Generator.plain_draw (t : TypeTag) (g : Generator) : (draw t g).1.Plain := by
  rcases t with (_ | _ | _) | t <;> intro b hb <;> cases hb

/-- A step gives an integer for an integer and a decimal for a decimal of its precision, and nothing
for anything else. -/
theorem Increment.typeTag_of_advance {name : String} {step : Decimal} {v w : Value}
    (h : advance name step v = .ok w) : w.Plain ∧ w.typeTag = v.typeTag := by
  unfold advance at h
  split at h
  · split at h
    · cases h
      exact ⟨nofun, rfl⟩
    · cases h
  · cases h
    exact ⟨nofun, rfl⟩
  · cases h

/-! ### Stores -/

namespace Store

/-- A store whose variables are well-typed in all frames, and whose stack has no truth value. -/
structure WellTyped (s : Store) : Prop where
  /-- The variables of all frames are well-typed. -/
  frames : ∀ f ∈ s.frames, ∀ name v, f.find? name = some v → v.WellTyped
  /-- There is no truth value on the stack. -/
  stack : ∀ v ∈ s.stack, v.Plain

/-- A variable that may be written under a name: it is well-typed if the one that the name stands
for is, should there be one. -/
def Admits (s : Store) (name : String) (v : Variable) : Prop :=
  (∀ w, s.lookup? name = some w → w.WellTyped) → v.WellTyped

/-- A variable that is declared as the one is that the name stands for, should there be one: with
the same type and the same shield. -/
def Retains (s : Store) (name : String) (v : Variable) : Prop :=
  ∀ w, s.lookup? name = some w → v.tag = w.tag ∧ v.shielded = w.shielded

variable {s : Store}

/-- A store without variables is well-typed. -/
theorem wellTyped_empty : WellTyped {} := by
  refine ⟨fun f hf name v hv ↦ ?_, fun v hv ↦ nomatch hv⟩
  rw [List.mem_singleton.mp hf] at hv
  cases hv

/-- What can be looked up is a variable of some frame. -/
theorem WellTyped.of_lookup? (h : s.WellTyped) {name : String} {v : Variable}
    (hv : s.lookup? name = some v) : v.WellTyped := by
  rw [lookup?_eq_findSome?, List.findSome?_eq_some_iff] at hv
  obtain ⟨_, f, _, hframes, hf, -⟩ := hv
  exact h.frames f (by rw [hframes]; simp) name v hf

/-- Writing a variable changes the innermost frame only. -/
theorem mem_frames_put {name : String} {v : Variable} {f : Frame} (h : f ∈ (s.put name v).frames) :
    f = s.top.insert name v ∨ f ∈ s.frames := by
  rw [frames_put, List.mem_cons] at h
  exact h.imp_right List.mem_of_mem_tail

/-- The innermost frame is one of the frames. -/
theorem top_mem_frames (s : Store) : s.top ∈ s.frames := by
  cases hcalls : s.calls <;> simp [frames, top, hcalls]

/-- What the store admits may be written. -/
theorem WellTyped.put (h : s.WellTyped) {name : String} {v : Variable} (hv : s.Admits name v) :
    (s.put name v).WellTyped where
  frames f hf other w hw := by
    rcases mem_frames_put hf with rfl | hf
    · rw [Table.find?_insert] at hw
      split at hw
      · cases hw
        exact hv fun w hw ↦ h.of_lookup? hw
      · exact h.frames s.top s.top_mem_frames other w hw
    · exact h.frames f hf other w hw
  stack := by
    rw [stack_put]
    exact h.stack

/-- What is no truth value may be pushed. -/
theorem WellTyped.push (h : s.WellTyped) {v : Value} (hv : v.Plain) : (s.push v).WellTyped where
  frames := h.frames
  stack w hw := by
    rcases List.mem_cons.mp hw with rfl | hw
    · exact hv
    · exact h.stack w hw

/-- The rest of a stack without truth values has none. -/
theorem WellTyped.tail_stack (h : s.WellTyped) : WellTyped { s with stack := s.stack.tail } :=
  ⟨h.frames, fun v hv ↦ h.stack v (List.mem_of_mem_tail hv)⟩

/-- A new frame has no variables, so it may be opened. -/
theorem WellTyped.enter (h : s.WellTyped) : s.enter.WellTyped where
  frames f hf name v hv := by
    rcases List.mem_cons.mp (show f ∈ {} :: s.frames from hf) with rfl | hf
    · cases hv
    · exact h.frames f hf name v hv
  stack := h.stack

/-- The frames that are left when one is closed were there before. -/
theorem WellTyped.exit (h : s.WellTyped) : s.exit.WellTyped where
  frames f hf := by
    refine h.frames f ?_
    rcases List.mem_append.mp hf with hf | hf
    · exact List.mem_append_left _ (List.mem_of_mem_tail hf)
    · exact List.mem_append_right _ hf
  stack := h.stack

/-! ### What operations write -/

/-- A declaration writes the default of its type, whatever the name stood for. -/
theorem admits_declare (s : Store) (name : String) (tag : TypeTag) (shielded : Bool) :
    s.Admits name { value := .default tag, tag, shielded } :=
  fun _ ↦ ⟨Value.plain_default tag, Value.typeTag_default tag⟩

/-- The variable that `Store.bind` writes. -/
theorem admits_bind (s : Store) (name : String) (value : Value) (shielded : Bool) :
    s.Admits name { value := value.stored, tag := value.typeTag, shielded } :=
  fun _ ↦ ⟨value.plain_stored, value.typeTag_stored⟩

/-- The variable of a parameter. -/
theorem admits_argument (s : Store) (name : String) (value : Value) :
    s.Admits name { value := value.argument, tag := value.argument.typeTag, shielded := false } :=
  fun _ ↦ ⟨value.plain_argument, rfl⟩

/-- A change of values that gives well-typed variables for well-typed ones. -/
def KeepsType (f : Variable → Except Fault Value) : Prop :=
  ∀ v value, f v = .ok value → v.WellTyped → Variable.WellTyped { v with value }

/-- A value that is always of the declared type is one. -/
theorem keepsType_of_eq {value : Variable → Value}
    (h : ∀ v, (value v).Plain ∧ (value v).typeTag = v.tag) :
    KeepsType fun v ↦ .ok (value v) := by
  rintro v w hw -
  cases hw
  exact ⟨(h v).1, (h v).2⟩

/-- A conversion gives a value of the type that the variable is declared with, or fails. -/
theorem keepsType_convert (value : Value) (fault : Variable → Fault) :
    KeepsType fun v ↦
      match value.convert? v.tag with
      | some w => .ok w
      | none => .error (fault v) := by
  rintro v w hw -
  simp only at hw
  split at hw
  · cases hw
    rename_i hconvert
    exact ⟨Value.plain_of_convert? hconvert, Value.typeTag_of_convert? hconvert⟩
  · cases hw

/-- An increment advances a value within its type. -/
theorem keepsType_advance (name : String) (step : Decimal) :
    KeepsType fun v ↦ Increment.advance name step v.value := by
  intro v w hw hv
  obtain ⟨hplain, htag⟩ := Increment.typeTag_of_advance hw
  exact ⟨hplain, htag.trans hv.typeTag⟩

/-- Sorting a list gives a list of the same items. -/
theorem keepsType_sort (name : String) (descending : Bool) :
    KeepsType fun v ↦
      match v.value with
      | .list xs => .ok (.list (xs.sort descending))
      | _ => .error (.sortNoList name) := by
  intro v w hw hv
  simp only at hw
  split at hw
  · rename_i xs hxs
    cases hw
    refine ⟨nofun, ?_⟩
    rw [← hv.typeTag, hxs]
    exact congrArg TypeTag.list (xs.itemType_sort descending)
  · cases hw

/-- An update of a variable in sight writes the new value in the innermost frame. -/
theorem update_of_ok {s : Store} {name : String} {v : Variable} {value : Value}
    {f : Variable → Except Fault Value} (hv : s.lookup? name = some v) (hf : f v = .ok value) :
    s.update name f = (.ok (), s.put name { v with value }) := by
  simp only [update, hv, hf]

/-- An update that fails has copied the variable to the innermost frame before, unchanged. -/
theorem update_of_error {s : Store} {name : String} {v : Variable} {e : Fault}
    {f : Variable → Except Fault Value} (hv : s.lookup? name = some v) (hf : f v = .error e) :
    s.update name f = (.error e, (s.own name).2) := by
  simp only [update, hv, hf]

/-- What changes a value alone leaves a variable declared as it was. -/
theorem retains_of_lookup? {s : Store} {name : String} {v : Variable} (hv : s.lookup? name = some v)
    (value : Value) : s.Retains name { v with value } := by
  intro w hw
  cases hv.symm.trans hw
  exact ⟨rfl, rfl⟩

/-- An update writes a variable that the store admits, if it writes at all, and leaves it declared
as it was. -/
theorem snd_update (s : Store) (name : String) {f : Variable → Except Fault Value}
    (hf : KeepsType f) :
    (s.update name f).2 = s ∨
      ∃ v, s.Admits name v ∧ s.Retains name v ∧ (s.update name f).2 = s.put name v := by
  unfold update own
  rcases hv : s.lookup? name with - | v
  · exact .inl rfl
  · have hown : s.Admits name v := fun h ↦ h v hv
    rcases hvalue : f v with e | value
    · exact .inr ⟨v, hown, retains_of_lookup? hv v.value, by simp [hvalue]⟩
    · exact .inr ⟨{ v with value }, fun h ↦ hf v value hvalue (hown h),
        retains_of_lookup? hv value, by simp [hvalue]⟩

/-- What setting a variable writes, if anything: a variable of the type that it had. -/
theorem snd_set (s : Store) (name : String) (value : Value) :
    (s.set name value).2 = s ∨
      ∃ v, s.Admits name v ∧ s.Retains name v ∧ (s.set name value).2 = s.put name v :=
  s.snd_update name (keepsType_convert value fun v ↦ .store value.kind v.tag name)

/-- What an assignment writes, if anything: what setting does, or a new variable. -/
theorem snd_assign (s : Store) (name : String) (value : Value) :
    (s.assign name value).2 = s ∨
      ∃ v, s.Admits name v ∧ s.Retains name v ∧ (s.assign name value).2 = s.put name v := by
  unfold assign
  split
  · exact s.snd_set name value
  case h_2 hnone =>
    refine .inr ⟨_, s.admits_bind name value _, fun w hw ↦ ?_, rfl⟩
    cases hnone.symm.trans hw

end Store

end Haklang
