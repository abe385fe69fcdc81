import IndexAccess.Counters
import Mathlib.Data.List.Perm.Basic

/-!
# Scopes and their recorders

A program may open scopes within scopes, one after the other, and name the same recorder in several
of them.  Each of its signals, an event or a reset of the counters, stands within some scopes.  An
event goes to the recorder of the innermost one, or to the counters where there is none; a reset
clears the counters wherever it stands.

The signals of a program are listed with the scopes around them before anything is performed.  The
list says what every recorder receives and what the counters are told, and no event is lost or
received twice.  The induction is on the program: the meter knows the innermost scope alone, so
what carries it is that a scope puts back the recorder that it found.
-/

namespace IndexAccess.Meter

open scoped List

/-! ## Signals and where they go -/

inductive Signal where
  | event (event : TallyEvent)
  | reset

/-- A signal of a program with the recorders of the scopes around it, the innermost first. -/
structure Notice where
  around : List Nat
  signal : Signal

namespace Notice

/-- The recorder that is to receive an event; none where it is for the counters. -/
def recorder? (notice : Notice) : Option Nat := notice.around.head?

def event? (notice : Notice) : Option TallyEvent :=
  match notice.signal with
  | .event event => some event
  | .reset => none

def isReset (notice : Notice) : Bool :=
  match notice.signal with
  | .event _ => false
  | .reset => true

/-- What becomes of the counters: a reset clears them, and an event outside every scope is added. -/
def count (counters : Counters) (notice : Notice) : Counters :=
  match notice.signal, notice.around with
  | .event event, [] => counters.add event
  | .event _, _ :: _ => counters
  | .reset, _ => .zero

end Notice

mutual

/-- The signals of an activity within the scopes `around`, in the order of the program. -/
def notices (around : List Nat) : Activity → List Notice
  | .event event => [⟨around, .event event⟩]
  | .reset => [⟨around, .reset⟩]
  | .scope recorder body => noticesAll (recorder :: around) body

def noticesAll (around : List Nat) : List Activity → List Notice
  | [] => []
  | activity :: rest => notices around activity ++ noticesAll around rest

end

def events (notices : List Notice) : List TallyEvent := notices.filterMap Notice.event?

/-- The events for one recorder, or for the counters. -/
def eventsFor (recorder? : Option Nat) (notices : List Notice) : List TallyEvent :=
  events (notices.filter fun notice ↦ notice.recorder? = recorder?)

/-- Between two moments of a meter the events of some notices have been received, each recorder's
in their order, the counters have been told the others, and the same recorder is in force. -/
structure Delivered (notices : List Notice) (meter later : Meter) : Prop where
  inForce : later.inForce = meter.inForce
  recorders : later.received.length = meter.received.length
  received : ∀ recorder < meter.received.length,
    later.receivedBy recorder = meter.receivedBy recorder ++ eventsFor (some recorder) notices
  counters : later.counters = notices.foldl Notice.count meter.counters

/-! ## Single signals -/

variable {meter later mid : Meter} {first second : List Notice}

theorem eventsFor_append (recorder? : Option Nat) (first second : List Notice) :
    eventsFor recorder? (first ++ second) =
      eventsFor recorder? first ++ eventsFor recorder? second := by
  unfold eventsFor events
  rw [List.filter_append, List.filterMap_append]

theorem delivered_nil (meter : Meter) : Delivered [] meter meter where
  inForce := rfl
  recorders := rfl
  received := fun _ _ ↦ (List.append_nil _).symm
  counters := rfl

theorem Delivered.append (h : Delivered first meter mid) (hnext : Delivered second mid later) :
    Delivered (first ++ second) meter later where
  inForce := hnext.inForce.trans h.inForce
  recorders := hnext.recorders.trans h.recorders
  received := by
    intro recorder hlt
    rw [hnext.received recorder (h.recorders ▸ hlt), h.received recorder hlt, List.append_assoc,
      eventsFor_append]
  counters := by
    rw [hnext.counters, h.counters, List.foldl_append]

theorem delivered_record {around : List Nat} (h : around.head? = meter.inForce)
    (event : TallyEvent) : Delivered [⟨around, .event event⟩] meter (meter.record event) := by
  cases around with
  | nil =>
    have hrecord : meter.record event = { meter with counters := meter.counters.add event } := by
      unfold record
      rw [← h]
      rfl
    rw [hrecord]
    exact ⟨rfl, rfl, fun _ _ ↦ (List.append_nil _).symm, rfl⟩
  | cons innermost outer =>
    have hrecord : meter.record event =
        { meter with received := meter.received.modify innermost (· ++ [event]) } := by
      unfold record
      rw [← h]
      rfl
    rw [hrecord]
    refine ⟨rfl, List.length_modify .., ?_, rfl⟩
    intro recorder hlt
    unfold receivedBy
    rw [List.getD_eq_getElem?_getD, List.getElem?_modify, List.getD_eq_getElem?_getD,
      List.getElem?_eq_getElem hlt]
    by_cases heq : innermost = recorder
    · simp [eventsFor, events, Notice.recorder?, Notice.event?, heq]
    · simp [eventsFor, events, Notice.recorder?, heq]

theorem delivered_reset (around : List Nat) (meter : Meter) :
    Delivered [⟨around, .reset⟩] meter meter.reset := by
  refine ⟨rfl, rfl, ?_, rfl⟩
  intro recorder _
  by_cases heq : around.head? = some recorder
  · simp [eventsFor, events, Notice.recorder?, Notice.event?, heq, receivedBy, reset]
  · simp [eventsFor, events, Notice.recorder?, heq, receivedBy, reset]

/-- A scope puts back the recorder that was in force before it. -/
theorem Delivered.scope {notices : List Notice} {recorder : Nat}
    (h : Delivered notices (meter.enter recorder) later) :
    Delivered notices meter (later.leave meter.inForce) where
  inForce := rfl
  recorders := h.recorders
  received := h.received
  counters := h.counters

/-! ## Programs -/

mutual

theorem delivered_perform (activity : Activity) {around : List Nat} {meter : Meter}
    (h : around.head? = meter.inForce) :
    Delivered (notices around activity) meter (meter.perform activity) := by
  match activity with
  | .event event => exact delivered_record h event
  | .reset => exact delivered_reset around meter
  | .scope recorder body =>
    have hbody : Delivered (noticesAll (recorder :: around) body) (meter.enter recorder)
        ((meter.enter recorder).performAll body) := delivered_performAll body rfl
    rw [notices, perform]
    exact hbody.scope

theorem delivered_performAll (activities : List Activity) {around : List Nat} {meter : Meter}
    (h : around.head? = meter.inForce) :
    Delivered (noticesAll around activities) meter (meter.performAll activities) := by
  match activities with
  | [] =>
    rw [noticesAll, performAll]
    exact delivered_nil meter
  | activity :: rest =>
    have hfirst := delivered_perform activity h
    have hrest : Delivered (noticesAll around rest) (meter.perform activity)
        ((meter.perform activity).performAll rest) :=
      delivered_performAll rest (h.trans hfirst.inForce.symm)
    rw [noticesAll, performAll]
    exact hfirst.append hrest

end

mutual

/-- The scopes around an activity are around all its signals. -/
theorem around_suffix_of_mem_notices (activity : Activity) {around : List Nat} :
    ∀ notice ∈ notices around activity, around <:+ notice.around := by
  match activity with
  | .event event => simp [notices]
  | .reset => simp [notices]
  | .scope recorder body =>
    intro notice hmem
    rw [notices] at hmem
    have hbody : recorder :: around <:+ notice.around :=
      around_suffix_of_mem_noticesAll body notice hmem
    exact (List.suffix_cons recorder around).trans hbody

theorem around_suffix_of_mem_noticesAll (activities : List Activity) {around : List Nat} :
    ∀ notice ∈ noticesAll around activities, around <:+ notice.around := by
  match activities with
  | [] => simp [noticesAll]
  | activity :: rest =>
    intro notice hmem
    rw [noticesAll] at hmem
    rcases List.mem_append.mp hmem with hfirst | hrest
    · exact around_suffix_of_mem_notices activity notice hfirst
    · exact around_suffix_of_mem_noticesAll rest notice hrest

end

/-- Within scopes the counters are told of nothing but resets. -/
theorem foldl_count_of_within {notices : List Notice} (h : ∀ notice ∈ notices, notice.around ≠ [])
    (counters : Counters) :
    notices.foldl Notice.count counters =
      if notices.any Notice.isReset then .zero else counters := by
  induction notices generalizing counters with
  | nil => rfl
  | cons notice notices ih =>
    obtain ⟨hnotice, hnotices⟩ := List.forall_mem_cons.mp h
    obtain ⟨around, signal⟩ := notice
    obtain ⟨innermost, outer, rfl⟩ := List.exists_cons_of_ne_nil hnotice
    rw [List.foldl_cons, ih hnotices, List.any_cons]
    cases signal with
    | event event => rfl
    | reset => simp [Notice.count, Notice.isReset]

/-! ## All events together -/

theorem eventsFor_cons (recorder? : Option Nat) (notice : Notice) (notices : List Notice) :
    eventsFor recorder? (notice :: notices) =
      (if notice.recorder? = recorder? then notice.event?.toList else []) ++
        eventsFor recorder? notices := by
  unfold eventsFor events
  by_cases heq : notice.recorder? = recorder?
  · cases hevent : notice.event? <;> simp [heq, hevent]
  · simp [heq]

theorem events_cons (notice : Notice) (notices : List Notice) :
    events (notice :: notices) = notice.event?.toList ++ events notices := by
  unfold events
  cases hevent : notice.event? <;> simp [hevent]

/-- What one recorder is given is all that is given. -/
theorem flatMap_range_ite {count recorder : Nat} (h : recorder < count)
    (given : List TallyEvent) :
    ((List.range count).flatMap fun other ↦ if some recorder = some other then given else []) =
      given := by
  induction count with
  | zero => cases h
  | succ count ih =>
    rw [List.range_succ, List.flatMap_append, List.flatMap_singleton]
    by_cases hlast : recorder = count
    · have hbefore : ((List.range count).flatMap fun other ↦
          if some recorder = some other then given else []) = [] := by
        rw [List.flatMap_eq_nil_iff]
        intro other hother
        have hlt := List.mem_range.mp hother
        rw [if_neg fun heq ↦ by rw [Option.some.inj heq] at hlast; omega]
      rw [hbefore, hlast, if_pos rfl, List.nil_append]
    · rw [ih (by omega), if_neg fun heq ↦ hlast (Option.some.inj heq), List.append_nil]

/-- Where every recorder exists, each event is for exactly one of them or for the counters. -/
theorem perm_eventsFor {count : Nat} {notices : List Notice}
    (h : ∀ notice ∈ notices, ∀ recorder ∈ notice.recorder?, recorder < count) :
    (eventsFor none notices ++
      (List.range count).flatMap fun recorder ↦ eventsFor (some recorder) notices).Perm
        (events notices) := by
  induction notices with
  | nil => simp [eventsFor, events]
  | cons notice notices ih =>
    obtain ⟨hnotice, hnotices⟩ := List.forall_mem_cons.mp h
    simp only [eventsFor_cons, events_cons]
    cases hrecorder : notice.recorder? with
    | none =>
      simp only [if_true, reduceCtorEq, if_false, List.nil_append, List.append_assoc]
      exact (ih hnotices).append_left _
    | some recorder =>
      simp only [reduceCtorEq, if_false, List.nil_append]
      have hgiven := flatMap_range_ite (hnotice recorder hrecorder) notice.event?.toList
      have hsplit := List.flatMap_append_perm (List.range count)
        (fun other ↦ if some recorder = some other then notice.event?.toList else [])
        fun other ↦ eventsFor (some other) notices
      rw [hgiven] at hsplit
      calc eventsFor none notices ++ _
        _ ~ eventsFor none notices ++ (notice.event?.toList ++
              (List.range count).flatMap fun other ↦ eventsFor (some other) notices) :=
          hsplit.symm.append_left _
        _ ~ notice.event?.toList ++ (eventsFor none notices ++
              (List.range count).flatMap fun other ↦ eventsFor (some other) notices) :=
          List.perm_append_comm_assoc ..
        _ ~ notice.event?.toList ++ events notices := (ih hnotices).append_left _

theorem flatMap_receivedBy (meter : Meter) :
    (List.range meter.received.length).flatMap meter.receivedBy = meter.received.flatten := by
  have hreceived : (List.range meter.received.length).map meter.receivedBy = meter.received := by
    apply List.ext_getElem
    · simp
    · intro recorder hlt hlt'
      simp [receivedBy, hlt']
  rw [List.flatMap_def, hreceived]

/-- What the recorders hold later, together with the events for the counters, is what they held
before and all events. -/
theorem Delivered.perm {notices : List Notice} (h : Delivered notices meter later)
    (hknown : ∀ notice ∈ notices, ∀ recorder ∈ notice.recorder?,
      recorder < meter.received.length) :
    (later.received.flatten ++ eventsFor none notices).Perm
      (meter.received.flatten ++ events notices) := by
  let recorders := List.range meter.received.length
  have hlater : later.received.flatten =
      recorders.flatMap fun recorder ↦
        meter.receivedBy recorder ++ eventsFor (some recorder) notices := by
    rw [← later.flatMap_receivedBy, h.recorders]
    apply List.flatMap_congr
    intro recorder hmem
    exact h.received recorder (List.mem_range.mp hmem)
  calc later.received.flatten ++ eventsFor none notices
    _ = (recorders.flatMap fun recorder ↦
          meter.receivedBy recorder ++ eventsFor (some recorder) notices) ++
            eventsFor none notices := by rw [hlater]
    _ ~ (recorders.flatMap meter.receivedBy ++
          recorders.flatMap fun recorder ↦ eventsFor (some recorder) notices) ++
            eventsFor none notices := (List.flatMap_append_perm ..).symm.append_right _
    _ = meter.received.flatten ++
          ((recorders.flatMap fun recorder ↦ eventsFor (some recorder) notices) ++
            eventsFor none notices) := by rw [meter.flatMap_receivedBy, List.append_assoc]
    _ ~ meter.received.flatten ++ (eventsFor none notices ++
          recorders.flatMap fun recorder ↦ eventsFor (some recorder) notices) :=
      List.perm_append_comm.append_left _
    _ ~ meter.received.flatten ++ events notices := (perm_eventsFor hknown).append_left _

/-- Every event of a program goes to the recorder of the innermost scope around it, or to the
counters outside every scope, in the order of the program; no event is lost or received twice.
After a scope the recorder in force is the one before it, and events within a scope leave the
counters alone. -/
theorem performAll_delivers (meter : Meter) (activities : List Activity)
    (hknown : ∀ notice ∈ noticesAll meter.inForce.toList activities,
      ∀ recorder ∈ notice.recorder?, recorder < meter.received.length) :
    let notices := noticesAll meter.inForce.toList activities
    let later := meter.performAll activities
    Delivered notices meter later ∧
      (later.received.flatten ++ eventsFor none notices).Perm
        (meter.received.flatten ++ events notices) ∧
      ∀ recorder body,
        let left := later.perform (.scope recorder body)
        left.inForce = later.inForce ∧
          left.counters =
            if (noticesAll [recorder] body).any Notice.isReset then .zero else later.counters := by
  intro notices later
  have houter : meter.inForce.toList.head? = meter.inForce := by
    cases meter.inForce <;> rfl
  have hdelivered : Delivered notices meter later := delivered_performAll activities houter
  refine ⟨hdelivered, hdelivered.perm hknown, ?_⟩
  intro recorder body left
  have hleft : Delivered (noticesAll [recorder] body) (later.enter recorder)
      ((later.enter recorder).performAll body) := delivered_performAll body rfl
  refine ⟨rfl, ?_⟩
  calc left.counters
    _ = (noticesAll [recorder] body).foldl Notice.count later.counters := hleft.counters
    _ = _ := foldl_count_of_within (fun notice hmem ↦
      (around_suffix_of_mem_noticesAll body notice hmem).ne_nil (List.cons_ne_nil _ _)) _

/-- A recorder is named in a scope, and again in a scope within it after another one. -/
def reusedRecorder : List Activity :=
  [.event (.union 2),
    .scope 0 [.event (.union 3), .scope 1 [.event (.selection 1)], .scope 0 [.event (.union 4)],
      .reset, .event (.selection 2)],
    .event (.extension 2 1 1 0)]

theorem performAll_delivers_reusedRecorder :
    let meter := fresh.addRecorder.1.addRecorder.1
    let notices := noticesAll meter.inForce.toList reusedRecorder
    let later := meter.performAll reusedRecorder
    (∀ notice ∈ notices, ∀ recorder ∈ notice.recorder?, recorder < meter.received.length) ∧
      Delivered notices meter later ∧
      (later.received.flatten ++ eventsFor none notices).Perm
        (meter.received.flatten ++ events notices) ∧
      ∀ recorder body,
        let left := later.perform (.scope recorder body)
        left.inForce = later.inForce ∧
          left.counters =
            if (noticesAll [recorder] body).any Notice.isReset then .zero else later.counters := by
  intro meter notices later
  have hknown : ∀ notice ∈ notices, ∀ recorder ∈ notice.recorder?,
      recorder < meter.received.length := by decide
  exact ⟨hknown, performAll_delivers meter reusedRecorder hknown⟩

/-- The reset within the scope clears what was counted before it. -/
example :
    let later := fresh.addRecorder.1.addRecorder.1.performAll reusedRecorder
    later.received = [[.union 3, .union 4, .selection 2], [.selection 1]] ∧
      later.counters = ⟨1, 2, 1, 1, 0, 0, 0, 0⟩ := by
  decide

end IndexAccess.Meter
