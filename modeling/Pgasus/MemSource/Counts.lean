import Pgasus.MemSource.Handles

/-! The counts of a source: a handle that refers to it, or a call that has yet to give
a reference back, is a live handle; a block that is out, or that a call is about to
hand out or to take back, is a live block. -/
namespace Pgasus.Handles
open Runs Totals Counting

def Handle.counts (source : Source) (handle : Handle) : Nat := if handle.counted = some source then 1 else 0

def blockCounts (source : Source) (block : Option Source) : Nat := if block = some source then 1 else 0

namespace Pc
variable (source : Source)

def opens : Pc → Nat
  | .createRef _ opened => if opened = source then 1 else 0
  | _ => 0

def owes : Pc → Nat
  | .assignRef _ _ _ old => if old = some source then 1 else 0
  | .unref held _ => if held = source then 1 else 0
  | .deref held _ => if held = source then 1 else 0
  | _ => 0

def blocks : Pc → Nat
  | .writeFake given => if given = source then 1 else 0
  | .free taken => if taken = source then 1 else 0
  | .removeBlock taken => if taken = source then 1 else 0
  | _ => 0

def destroys : Pc → Nat
  | .destroy destroyed _ => if destroyed = source then 1 else 0
  | _ => 0

end Pc

def part (shared : Shared) (pc : Pc) (source : Source) : Object where
  born := Nat.blt source shared.sources
  opening := pc.opens source
  upper := total (Handle.counts source) shared.handles + pc.owes source
  lower := total (blockCounts source) shared.blocks + pc.blocks source
  word := shared.values source
  due := pc.destroys source
  ended := shared.destroyed.count source

def State.object (state : State) (source : Source) : Object where
  born := Nat.blt source state.shared.sources
  opening := total (Pc.opens source) state.threads
  upper := total (Handle.counts source) state.shared.handles + total (Pc.owes source) state.threads
  lower := total (blockCounts source) state.shared.blocks + total (Pc.blocks source) state.threads
  word := state.shared.values source
  due := total (Pc.destroys source) state.threads
  ended := state.shared.destroyed.count source

/-- Outside of calls a handle counts for the source it points to. -/
def Handle.Settled (handle : Handle) : Prop :=
  handle.counted = handle.msource ∧ (handle.constructed = false → handle.msource = none)

def Holds (handles : List Handle) (position : Nat) (source : Source) : Prop :=
  handles[position]? = some ⟨true,some source,some source⟩

def Vacant (handles : List Handle) (position : Nat) : Prop :=
  ∃ handle, handles[position]? = some handle ∧ handle.counted = none

def After.Fits (handles : List Handle) : After → Prop
  | .done => True
  | .move dst src => Vacant handles dst ∧ (∃ msource counted, handles[src]? = some ⟨true,msource,counted⟩ ∧
      (src ≠ dst → counted = msource)) ∧ ∃ msource, handles[dst]? = some ⟨true,msource,none⟩
  | .destruct dst => Vacant handles dst

def Pc.Fits (handles : List Handle) : Pc → Prop
  | .create dst => Vacant handles dst
  | .createRef dst _ => Vacant handles dst
  | .copyRef dst src source => src ≠ dst ∧ Holds handles src source ∧ handles[dst]? = some ⟨true,some source,none⟩
  | .assignRef dst src source _ => src ≠ dst ∧ Holds handles src source ∧ handles[dst]? = some ⟨true,some source,none⟩
  | .unref _ after => after.Fits handles
  | .deref _ after => after.Fits handles
  | .destroy _ after => after.Fits handles
  | .finish after => after.Fits handles
  | .alloc position source _ => Holds handles position source
  | .addBlock position source _ => Holds handles position source
  | _ => True

structure Effect (shared : Shared) (pc : Pc) (writes reads : List Nat) (changed : Shared) (next : Pc) : Prop where
  handles : ∀ position ∉ writes, changed.handles[position]? = shared.handles[position]?
  changes : ∀ position ∈ next.changes, position ∈ writes
  reads : ∀ position ∈ next.reads, position ∈ reads
  fits : next.Fits changed.handles
  settled : ∀ position ∈ writes, position ∉ next.changes → ∀ handle,
    changed.handles[position]? = some handle → handle.Settled
  moves : ∀ source, Move BlockCount.ref (2^64) (part shared pc source) (part changed next source)
  calm : shared.faulted = false → (∀ source, (part shared pc source).Alive → source ∉ shared.destroyed) →
    changed.faulted = false

section Pieces
variable {shared : Shared} {pc next : Pc} {source other : Source} {delta : Nat}

@[simp] theorem fetchAdd_handles : (shared.fetchAdd source delta).handles = shared.handles := rfl

theorem touch_calm (calm : shared.faulted = false) (alive : (part shared pc source).Alive)
    (kept : ∀ source, (part shared pc source).Alive → source ∉ shared.destroyed) :
    (shared.touch source).faulted = false := by
  simp [Shared.touch,calm,kept source alive]

theorem counts_pos {handles : List Handle} {position : Nat} (holds : Holds handles position source) :
    0 < total (Handle.counts source) handles := by
  have least := weight_le_total (Handle.counts source) holds
  simp only [Handle.counts,if_true] at least
  omega

theorem move_stay (opens : next.opens source = pc.opens source) (owes : next.owes source = pc.owes source)
    (blocks : next.blocks source = pc.blocks source) (destroys : next.destroys source = pc.destroys source)
    {changed : Shared} (sources : changed.sources = shared.sources) (values : changed.values source = shared.values source)
    (handles : total (Handle.counts source) changed.handles = total (Handle.counts source) shared.handles)
    (ended : changed.destroyed = shared.destroyed) (same : changed.blocks = shared.blocks) :
    Move BlockCount.ref (2^64) (part shared pc source) (part changed next source) := by
  have equal : part changed next source = part shared pc source := by
    simp only [part,opens,owes,blocks,destroys,sources,values,handles,ended,same]
  rw [equal]
  exact .stay

theorem total_fill {handles : List Handle} {position : Nat} (vacant : Vacant handles position) (counted : Source)
    (fill : Handle → Handle) (fills : ∀ handle, (fill handle).counted = some counted) (source : Source) :
    total (Handle.counts source) (handles.modify position fill) =
      total (Handle.counts source) handles + if counted = source then 1 else 0 := by
  obtain ⟨handle,found,none_⟩ := vacant
  have moved := total_modify (Handle.counts source) fill found
  simp only [Handle.counts,none_,fills,Option.some.injEq,reduceCtorEq,if_false] at moved
  exact moved

theorem setHandle_eq_modify (shared : Shared) (position : Nat) (handle : Handle) {old : Handle}
    (found : shared.handles[position]? = some old) :
    (shared.setHandle position handle).handles = shared.handles.modify position (fun _ => handle) :=
  (modify_eq_set (fun _ => handle) found).symm

end Pieces

section Acts
variable {shared changed : Shared} {pc next : Pc} {choice : Nat}

theorem effect_create (dst : Nat) (fits : (Pc.create dst).Fits shared.handles) :
    Effect shared (.create dst) [dst] [] shared.create (.createRef dst shared.sources) where
  handles _ _ := rfl
  changes _ inside := inside
  reads _ inside := inside
  fits := fits
  settled position inside outside := absurd inside outside
  moves source := by
    by_cases same : source = shared.sources
    · subst same
      have fresh : (part shared (.create dst) shared.sources).born = false := by
        rw [Bool.eq_false_iff]
        simp [part,Nat.blt_eq]
      convert Move.create fresh using 1
      simp [part,Shared.create,Pc.opens,Pc.owes,Pc.blocks,Pc.destroys]
    · have equal : part shared.create (.createRef dst shared.sources) source = part shared (.create dst) source := by
        have different : shared.sources ≠ source := Ne.symm same
        have bound : Nat.blt source (shared.sources + 1) = Nat.blt source shared.sources := by
          rw [Bool.eq_iff_iff,Nat.blt_eq,Nat.blt_eq]
          exact Nat.lt_succ_iff_lt_or_eq.trans (or_iff_left same)
        simp [part,Shared.create,Pc.opens,Pc.owes,Pc.blocks,Pc.destroys,same,different,bound]
      rw [equal]
      exact .stay
  calm calm _ := calm

theorem move_fill {source held : Source} {dst : Nat} {old : Option Source} {fill : Handle → Handle}
    (vacant : Vacant shared.handles dst) (fills : ∀ handle, (fill handle).counted = some held)
    (shared_ : ∀ source, source = held → 0 < total (Handle.counts source) shared.handles)
    (opens : pc.opens source = 0) (blocks : pc.blocks source = 0) (destroys : pc.destroys source = 0)
    (owes : pc.owes source = if old = some source then 1 else 0)
    (opens_ : next.opens source = 0) (blocks_ : next.blocks source = 0) (destroys_ : next.destroys source = 0)
    (owes_ : next.owes source = if old = some source then 1 else 0) :
    Move BlockCount.ref (2^64) (part shared pc source)
      (part {shared.fetchAdd held BlockCount.ref with handles := shared.handles.modify dst fill} next source) := by
  by_cases same : source = held
  · subst same
    have positive : 0 < (part shared pc source).upper := Nat.add_pos_left (shared_ source rfl) _
    convert Move.add positive using 1
    simp only [part,Shared.fetchAdd,Shared.touch,opens,blocks,destroys,owes,opens_,blocks_,destroys_,owes_,
      total_fill vacant source fill fills,if_true,Function.update_self,Nat.add_right_comm]
  · have equal : part {shared.fetchAdd held BlockCount.ref with handles := shared.handles.modify dst fill} next source =
        part shared pc source := by
      simp only [part,Shared.fetchAdd,Shared.touch,opens,blocks,destroys,owes,opens_,blocks_,destroys_,owes_,
        total_fill vacant held fill fills,Ne.symm same,if_false,Function.update_of_ne same,Nat.add_zero]
    rw [equal]
    exact .stay

theorem effect_createRef (dst : Nat) (held : Source) (fits : (Pc.createRef dst held).Fits shared.handles) :
    Effect shared (.createRef dst held) [dst] []
      ((shared.fetchAdd held BlockCount.ref).setHandle dst ⟨true,some held,some held⟩) .idle := by
  obtain ⟨handle,found,_⟩ := id fits
  have changed := setHandle_eq_modify (shared.fetchAdd held BlockCount.ref) dst ⟨true,some held,some held⟩ found
  constructor
  · intro position outside
    simp [Shared.setHandle,Ne.symm (List.ne_of_not_mem_cons outside)]
  · intro position inside
    cases inside
  · intro position inside
    cases inside
  · trivial
  · intro position inside _ after at_
    rw [List.mem_singleton.mp inside,changed,fetchAdd_handles,List.getElem?_modify_eq,found] at at_
    obtain rfl := Option.some.inj at_
    exact ⟨rfl,by simp⟩
  · intro source
    have filled := total_fill fits held (fun _ => ⟨true,some held,some held⟩) (fun _ => rfl) source
    by_cases same : source = held
    · subst same
      have opening : (part shared (.createRef dst source) source).opening = 0 + 1 := by simp [part,Pc.opens]
      convert Move.first 0 opening using 1
      simp only [part,changed,fetchAdd_handles,filled]
      simp [Shared.fetchAdd,Shared.setHandle,Shared.touch,Pc.opens,Pc.owes,Pc.blocks,Pc.destroys]
    · have equal : part ((shared.fetchAdd held BlockCount.ref).setHandle dst ⟨true,some held,some held⟩) .idle source =
          part shared (.createRef dst held) source := by
        simp only [part,changed,fetchAdd_handles,filled]
        simp [Shared.fetchAdd,Shared.setHandle,Shared.touch,Pc.opens,Pc.owes,Pc.blocks,Pc.destroys,Ne.symm same,same]
      rw [equal]
      exact .stay
  · intro calm kept
    exact touch_calm calm (.inl (by simp [part,Pc.opens])) kept

theorem effect_reference (dst src : Nat) (held : Source) (old : Option Source) (next : Pc)
    (fits : (Pc.assignRef dst src held old).Fits shared.handles)
    (step : pc = .copyRef dst src held ∧ old = none ∨ pc = .assignRef dst src held old)
    (goes : old = none ∧ next = .idle ∨ ∃ own, old = some own ∧ next = .unref own .done) :
    Effect shared pc [dst] [src] ((shared.fetchAdd held BlockCount.ref).setCounted dst (some held)) next := by
  obtain ⟨different,holds,found⟩ := fits
  have alive (source : Source) (same : source = held) : 0 < total (Handle.counts source) shared.handles :=
    same ▸ counts_pos holds
  have nextChanges : next.changes = [] := by obtain ⟨_,rfl⟩ | ⟨own,_,rfl⟩ := goes <;> rfl
  have nextReads : next.reads = [] := by obtain ⟨_,rfl⟩ | ⟨own,_,rfl⟩ := goes <;> rfl
  constructor
  · intro position outside
    have other : dst ≠ position := Ne.symm (List.ne_of_not_mem_cons outside)
    simp [Shared.setCounted,other]
  · simp [nextChanges]
  · simp [nextReads]
  · obtain ⟨_,rfl⟩ | ⟨own,_,rfl⟩ := goes <;> trivial
  · intro position inside _ after at_
    obtain rfl := List.mem_singleton.mp inside
    simp only [Shared.setCounted,fetchAdd_handles,List.getElem?_modify_eq,found] at at_
    obtain rfl := Option.some.inj at_
    exact ⟨rfl,by simp⟩
  · intro source
    have vacant : Vacant shared.handles dst := ⟨_,found,rfl⟩
    have owes : pc.owes source = if old = some source then 1 else 0 := by
      obtain ⟨rfl,rfl⟩ | rfl := step <;> simp [Pc.owes]
    have owesNext : next.owes source = if old = some source then 1 else 0 := by
      obtain ⟨rfl,rfl⟩ | ⟨own,rfl,rfl⟩ := goes <;> simp [Pc.owes]
    apply move_fill vacant (fun _ => rfl) alive _ _ _ owes _ _ _ owesNext
    all_goals first
      | obtain ⟨_,rfl⟩ | ⟨own,_,rfl⟩ := goes <;> rfl
      | obtain ⟨rfl,_⟩ | rfl := step <;> rfl
  · intro calm kept
    have positive : 0 < (part shared pc held).upper := Nat.add_pos_left (alive held rfl) _
    exact touch_calm calm (.inr (.inl positive)) kept

theorem effect_unref (held : Source) (after : After) (fits : (Pc.unref held after).Fits shared.handles) :
    Effect shared (.unref held after) (Pc.unref held after).changes [] (shared.touch held) (.deref held after) where
  handles _ _ := rfl
  changes _ inside := inside
  reads _ inside := inside
  fits := fits
  settled position inside outside := absurd inside outside
  moves source := move_stay rfl rfl rfl rfl rfl rfl rfl rfl rfl
  calm calm kept := touch_calm calm (.inr (.inl (by simp [part,Pc.owes]))) kept

theorem effect_deref (held : Source) (after : After) (fits : (Pc.deref held after).Fits shared.handles) :
    Effect shared (.deref held after) (Pc.deref held after).changes [] (shared.fetchSub held BlockCount.ref)
      (if shared.values held = BlockCount.ref then .destroy held after else .finish after) := by
  constructor
  · exact fun _ _ => rfl
  · split <;> exact fun _ inside => inside
  · split <;> exact fun _ inside => inside
  · split <;> exact fits
  · intro position inside outside
    split at outside <;> exact absurd inside outside
  · intro source
    by_cases same : source = held
    · subst same
      have upper : (part shared (.deref source after) source).upper = total (Handle.counts source) shared.handles + 1 := by
        simp [part,Pc.owes]
      convert Move.remove _ upper using 1
      split <;> simp_all [part,Shared.fetchSub,Shared.touch,Pc.opens,Pc.owes,Pc.blocks,Pc.destroys]
    · have different := Ne.symm same
      apply move_stay
      all_goals first | rfl | (split <;> simp [Pc.opens,Pc.owes,Pc.blocks,Pc.destroys,different]) | skip
      simp [Shared.fetchSub,Shared.touch,same]
  · exact fun calm kept => touch_calm calm (.inr (.inl (by simp [part,Pc.owes]))) kept

theorem effect_destroy (ended : Source) (after : After) (fits : (Pc.destroy ended after).Fits shared.handles) :
    Effect shared (.destroy ended after) (Pc.destroy ended after).changes [] (shared.destroy ended) (.finish after) where
  handles _ _ := rfl
  changes _ inside := inside
  reads _ inside := inside
  fits := fits
  settled position inside outside := absurd inside outside
  moves source := by
    by_cases same : source = ended
    · subst same
      have due : (part shared (.destroy source after) source).due = 0 + 1 := by simp [part,Pc.destroys]
      convert Move.destroy 0 due using 1
      simp [part,Shared.destroy,Shared.touch,Pc.opens,Pc.owes,Pc.blocks,Pc.destroys]
    · have equal : part (shared.destroy ended) (.finish after) source = part shared (.destroy ended after) source := by
        simp [part,Shared.destroy,Shared.touch,Pc.opens,Pc.owes,Pc.blocks,Pc.destroys,Ne.symm same]
      rw [equal]
      exact .stay
  calm calm kept := touch_calm calm (.inr (.inr (.inr (by simp [part,Pc.destroys])))) kept

theorem effect_end (after : After) (writes : List Nat) (handles : ∀ position ∉ writes,
      changed.handles[position]? = shared.handles[position]?)
    (settled : ∀ position ∈ writes, ∀ handle, changed.handles[position]? = some handle → handle.Settled)
    (totals : ∀ source, total (Handle.counts source) changed.handles = total (Handle.counts source) shared.handles)
    (rest : changed = {shared with handles := changed.handles}) :
    Effect shared (.finish after) writes [] changed .idle := by
  constructor
  · exact handles
  · intro position inside
    cases inside
  · intro position inside
    cases inside
  · trivial
  · exact fun position inside _ => settled position inside
  · intro source
    rw [rest]
    exact move_stay rfl rfl rfl rfl rfl rfl (totals source) rfl rfl
  · intro calm _
    rw [rest]
    exact calm

theorem effect_move (dst src : Nat) (fits : (After.move dst src).Fits shared.handles) :
    Effect shared (.finish (.move dst src)) [dst,src] [] (shared.moveHandle dst src) .idle := by
  obtain ⟨_,⟨msource,counted,found,settled⟩,own,here⟩ := fits
  have unfolded : shared.moveHandle dst src = {shared with handles :=
      ((shared.handles.set dst ⟨true,msource,counted⟩)).set src ⟨true,none,none⟩} := by
    simp only [Shared.moveHandle,found,Shared.setMsource,Shared.setCounted,Shared.setHandle]
    rw [List.modify_modify_eq,modify_eq_set _ here]
    rfl
  apply effect_end
  · intro position outside
    have first : dst ≠ position := fun same => outside (by simp [same])
    have second : src ≠ position := fun same => outside (by simp [same])
    simp [unfolded,first,second]
  · intro position inside handle at_
    rw [unfolded] at at_
    by_cases same : src = position
    · subst same
      have bound := (List.getElem?_eq_some_iff.mp found).1
      rw [List.getElem?_set_self (by simpa using bound)] at at_
      obtain rfl := Option.some.inj at_
      exact ⟨rfl,by simp⟩
    · have other : position = dst := by
        obtain first | second := List.mem_cons.mp inside
        · exact first
        · exact absurd (List.mem_singleton.mp second).symm same
      subst other
      have bound := (List.getElem?_eq_some_iff.mp here).1
      rw [List.getElem?_set_ne same,List.getElem?_set_self bound] at at_
      obtain rfl := Option.some.inj at_
      exact ⟨settled same,by simp⟩
  · intro source
    have first := total_set (Handle.counts source) ⟨true,msource,counted⟩ here
    rw [unfolded]
    by_cases same : src = dst
    · subst same
      obtain ⟨rfl,rfl⟩ : msource = own ∧ counted = none := by simpa using found.symm.trans here
      have emptied := total_set (Handle.counts source) ⟨true,none,none⟩ here
      rw [List.set_set]
      simpa [Handle.counts] using emptied
    · have still : (shared.handles.set dst ⟨true,msource,counted⟩)[src]? = some ⟨true,msource,counted⟩ := by
        rw [List.getElem?_set_ne (Ne.symm same)]
        exact found
      have second := total_set (Handle.counts source) ⟨true,none,none⟩ still
      simp only [Handle.counts,reduceCtorEq,if_false] at first second ⊢
      omega
  · rw [unfolded]

theorem effect_finish (after : After) (fits : after.Fits shared.handles) :
    Effect shared (.finish after) after.changes [] (shared.finish after) .idle := by
  cases after with
  | done => exact effect_end .done [] (fun _ _ => rfl) (fun _ inside => absurd inside List.not_mem_nil) (fun _ => rfl) rfl
  | move dst src => exact effect_move dst src fits
  | destruct dst =>
    obtain ⟨handle,found,none_⟩ := fits
    apply effect_end
    · intro position outside
      simp [Shared.finish,Shared.setHandle,Ne.symm (List.ne_of_not_mem_cons outside)]
    · intro position inside after at_
      obtain rfl := List.mem_singleton.mp inside
      rw [Shared.finish,setHandle_eq_modify shared position _ found,List.getElem?_modify_eq,found] at at_
      obtain rfl := Option.some.inj at_
      exact ⟨rfl,fun _ => rfl⟩
    · intro source
      have moved := total_set (Handle.counts source) ⟨false,none,none⟩ found
      simpa [Handle.counts,none_,Shared.finish,Shared.setHandle] using moved
    · rfl

theorem effect_alloc (position : Nat) (source : Source) (aligned : Bool) (choice : Nat)
    (fits : (Pc.alloc position source aligned).Fits shared.handles) :
    Effect shared (.alloc position source aligned) [] [position] (shared.touch source)
      (if choice = 0 then .idle else .addBlock position source aligned) := by
  constructor
  · exact fun _ _ => rfl
  · split <;> exact fun _ inside => inside
  · intro other inside
    split at inside
    · cases inside
    · exact inside
  · split
    · trivial
    · exact fits
  · exact fun _ inside => absurd inside List.not_mem_nil
  · intro other
    split <;> exact move_stay rfl rfl rfl rfl rfl rfl rfl rfl rfl
  · intro calm kept
    have positive : 0 < (part shared (.alloc position source aligned) source).upper :=
      Nat.add_pos_left (counts_pos fits) _
    exact touch_calm calm (.inr (.inl positive)) kept

theorem move_addBlock {source given : Source} (shared_ : 0 < total (Handle.counts given) shared.handles)
    (parts : ∀ source, pc.opens source = 0 ∧ pc.owes source = 0 ∧ pc.blocks source = 0 ∧ pc.destroys source = 0)
    (partsNext : ∀ source, next.opens source = 0 ∧ next.owes source = 0 ∧ next.destroys source = 0)
    (handles : changed.handles = shared.handles) (sources : changed.sources = shared.sources)
    (values : changed.values = (shared.fetchAdd given 1).values) (ended : changed.destroyed = shared.destroyed)
    (blocks : ∀ source, total (blockCounts source) changed.blocks + next.blocks source =
      total (blockCounts source) shared.blocks + if given = source then 1 else 0) :
    Move BlockCount.ref (2^64) (part shared pc source) (part changed next source) := by
  obtain ⟨opens,owes,none_,destroys⟩ := parts source
  obtain ⟨opensNext,owesNext,destroysNext⟩ := partsNext source
  have more := blocks source
  by_cases same : source = given
  · subst same
    have positive : 0 < (part shared pc source).upper := Nat.add_pos_left shared_ _
    convert Move.addLower positive using 1
    simp only [part,opens,owes,none_,destroys,opensNext,owesNext,destroysNext,handles,sources,values,ended,more,
      Shared.fetchAdd,Function.update_self,if_true]
  · have equal : part changed next source = part shared pc source := by
      simp only [part,opens,owes,none_,destroys,opensNext,owesNext,destroysNext,handles,sources,values,ended,more,
        Shared.fetchAdd,Function.update_of_ne same,Ne.symm same,if_false]
    rw [equal]
    exact .stay

theorem effect_addBlock (position : Nat) (given : Source) (aligned : Bool)
    (fits : (Pc.addBlock position given aligned).Fits shared.handles) (changed : Shared) (next : Pc)
    (goes : (changed,next) = if aligned then (shared.fetchAdd given 1,.writeFake given)
      else ((shared.fetchAdd given 1).addBlock given,.idle)) :
    Effect shared (.addBlock position given aligned) [] [position] changed next := by
  have positive := counts_pos fits
  have calm_ : shared.faulted = false → (∀ source, (part shared (.addBlock position given aligned) source).Alive →
      source ∉ shared.destroyed) → (shared.touch given).faulted = false := by
    intro calm kept
    have upper : 0 < (part shared (.addBlock position given aligned) given).upper := Nat.add_pos_left positive _
    exact touch_calm calm (.inr (.inl upper)) kept
  cases aligned with
  | true =>
    obtain ⟨rfl,rfl⟩ := Prod.mk.inj goes
    constructor
    · exact fun _ _ => rfl
    · exact fun _ inside => inside
    · exact fun _ inside => absurd inside List.not_mem_nil
    · trivial
    · exact fun _ inside => absurd inside List.not_mem_nil
    · intro source
      exact move_addBlock positive (fun _ => ⟨rfl,rfl,rfl,rfl⟩) (fun _ => ⟨rfl,rfl,rfl⟩) rfl rfl rfl rfl (fun _ => rfl)
    · exact calm_
  | false =>
    obtain ⟨rfl,rfl⟩ := Prod.mk.inj goes
    constructor
    · exact fun _ _ => rfl
    · exact fun _ inside => inside
    · exact fun _ inside => absurd inside List.not_mem_nil
    · trivial
    · exact fun _ inside => absurd inside List.not_mem_nil
    · intro source
      have blocks (other : Source) : total (blockCounts other) ((shared.fetchAdd given 1).addBlock given).blocks +
          Pc.idle.blocks other = total (blockCounts other) shared.blocks + if given = other then 1 else 0 := by
        simp [Shared.addBlock,Shared.fetchAdd,Shared.touch,blockCounts,Pc.blocks]
      exact move_addBlock positive (fun _ => ⟨rfl,rfl,rfl,rfl⟩) (fun _ => ⟨rfl,rfl,rfl⟩) rfl rfl rfl rfl blocks
    · exact calm_

theorem effect_writeFake (given : Source) :
    Effect shared (.writeFake given) [] [] ((shared.touch given).addBlock given) .idle where
  handles _ _ := rfl
  changes _ inside := inside
  reads _ inside := inside
  fits := trivial
  settled _ inside := absurd inside List.not_mem_nil
  moves source := by
    have equal : part ((shared.touch given).addBlock given) .idle source = part shared (.writeFake given) source := by
      simp [part,Shared.addBlock,Shared.touch,blockCounts,Pc.opens,Pc.owes,Pc.blocks,Pc.destroys]
    rw [equal]
    exact .stay
  calm calm kept := touch_calm calm (.inr (.inr (.inl (by simp [part,Pc.blocks])))) kept

theorem effect_free (taken : Source) :
    Effect shared (.free taken) [] [] (shared.touch taken) (.removeBlock taken) where
  handles _ _ := rfl
  changes _ inside := inside
  reads _ inside := inside
  fits := trivial
  settled _ inside := absurd inside List.not_mem_nil
  moves source := move_stay rfl rfl rfl rfl rfl rfl rfl rfl rfl
  calm calm kept := touch_calm calm (.inr (.inr (.inl (by simp [part,Pc.blocks])))) kept

theorem effect_removeBlock (taken : Source) :
    Effect shared (.removeBlock taken) [] [] (shared.fetchSub taken 1)
      (if shared.values taken = 1 then .destroy taken .done else .finish .done) := by
  constructor
  · exact fun _ _ => rfl
  · split <;> exact fun _ inside => inside
  · split <;> exact fun _ inside => inside
  · split <;> trivial
  · exact fun _ inside => absurd inside List.not_mem_nil
  · intro source
    by_cases same : source = taken
    · subst same
      have lower : (part shared (.removeBlock source) source).lower = total (blockCounts source) shared.blocks + 1 := by
        simp [part,Pc.blocks]
      convert Move.removeLower _ lower using 1
      split <;> simp_all [part,Shared.fetchSub,Shared.touch,Pc.opens,Pc.owes,Pc.blocks,Pc.destroys]
    · have different := Ne.symm same
      apply move_stay
      all_goals first | rfl | (split <;> simp [Pc.opens,Pc.owes,Pc.blocks,Pc.destroys,different]) | skip
      simp [Shared.fetchSub,Shared.touch,same]
  · exact fun calm kept => touch_calm calm (.inr (.inr (.inl (by simp [part,Pc.blocks])))) kept

theorem act_effect (fits : pc.Fits shared.handles) (acted : act shared choice pc = some (changed,next)) :
    Effect shared pc pc.changes pc.reads changed next := by
  cases pc with
  | idle => cases acted
  | create dst =>
    obtain ⟨rfl,rfl⟩ := Prod.mk.inj (Option.some.inj acted)
    exact effect_create dst fits
  | createRef dst source =>
    obtain ⟨rfl,rfl⟩ := Prod.mk.inj (Option.some.inj acted)
    exact effect_createRef dst source fits
  | copyRef dst src source =>
    obtain ⟨rfl,rfl⟩ := Prod.mk.inj (Option.some.inj acted)
    exact effect_reference dst src source none .idle fits (.inl ⟨rfl,rfl⟩) (.inl ⟨rfl,rfl⟩)
  | assignRef dst src source old =>
    obtain ⟨rfl,rfl⟩ := Prod.mk.inj (Option.some.inj acted)
    apply effect_reference dst src source old _ fits (.inr rfl)
    cases old with
    | none => exact .inl ⟨rfl,rfl⟩
    | some own => exact .inr ⟨own,rfl,rfl⟩
  | unref source after =>
    obtain ⟨rfl,rfl⟩ := Prod.mk.inj (Option.some.inj acted)
    exact effect_unref source after fits
  | deref source after =>
    obtain ⟨rfl,rfl⟩ := Prod.mk.inj (Option.some.inj acted)
    exact effect_deref source after fits
  | destroy source after =>
    obtain ⟨rfl,rfl⟩ := Prod.mk.inj (Option.some.inj acted)
    exact effect_destroy source after fits
  | finish after =>
    obtain ⟨rfl,rfl⟩ := Prod.mk.inj (Option.some.inj acted)
    exact effect_finish after fits
  | alloc position source aligned =>
    obtain ⟨rfl,rfl⟩ := Prod.mk.inj (Option.some.inj acted)
    exact effect_alloc position source aligned choice fits
  | addBlock position source aligned =>
    exact effect_addBlock position source aligned fits changed next (Option.some.inj acted).symm
  | writeFake source =>
    obtain ⟨rfl,rfl⟩ := Prod.mk.inj (Option.some.inj acted)
    exact effect_writeFake source
  | free source =>
    obtain ⟨rfl,rfl⟩ := Prod.mk.inj (Option.some.inj acted)
    exact effect_free source
  | removeBlock source =>
    obtain ⟨rfl,rfl⟩ := Prod.mk.inj (Option.some.inj acted)
    exact effect_removeBlock source

end Acts

end Pgasus.Handles
