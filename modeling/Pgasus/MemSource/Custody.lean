import Pgasus.MemSource.Counts

/-! Whatever threads do with handles and blocks, each source's word counts both, and
the source is destroyed once, by the thread that gives back the last of them. -/
namespace Pgasus.Handles
open Runs Totals Counting

def Call.changes : Call → List Nat
  | .create dst => [dst]
  | .construct dst => [dst]
  | .copy dst _ => [dst]
  | .move dst src => [dst,src]
  | .assign dst _ => [dst]
  | .moveAssign dst src => [dst,src]
  | .destruct dst => [dst]
  | _ => []

def Call.reads : Call → List Nat
  | .copy _ src => [src]
  | .assign _ src => [src]
  | .alloc position _ => [position]
  | _ => []

section Enter
variable {shared changed : Shared} {threads : List Pc} {next : Pc} {position : Nat} {handle : Handle}

theorem readable_iff : readable threads position = true ↔ ∀ pc ∈ threads, position ∉ pc.changes := by
  simp [readable]

theorem writable_iff :
    writable threads position = true ↔ ∀ pc ∈ threads, position ∉ pc.changes ∧ position ∉ pc.reads := by
  simp [writable]

def Rested (handles : List Handle) (threads : List Pc) : Prop :=
  ∀ position handle, handles[position]? = some handle → (∀ pc ∈ threads, position ∉ pc.changes) → handle.Settled

theorem Rested.readable (rested : Rested shared.handles threads) (found : shared.handles[position]? = some handle)
    (allowed : readable threads position = true) : handle.Settled :=
  rested position handle found (readable_iff.mp allowed)

theorem Rested.writable (rested : Rested shared.handles threads) (found : shared.handles[position]? = some handle)
    (allowed : writable threads position = true) : handle.Settled :=
  rested position handle found fun pc member => (writable_iff.mp allowed pc member).1

theorem Handle.Settled.vacant (settled : handle.Settled) (absent : handle.constructed = false) :
    handle.counted = none := settled.1.trans (settled.2 absent)

theorem Handle.Settled.eq (settled : handle.Settled) (present : handle.constructed = true) :
    handle = ⟨true,handle.msource,handle.msource⟩ := by
  cases handle
  simp_all [Handle.Settled]

theorem effect_replace (dst : Nat) (writes reads : List Nat) (new : Handle) (found : shared.handles[dst]? = some handle)
    (within : dst ∈ writes) (changes : ∀ position ∈ next.changes, position ∈ writes)
    (reads_ : ∀ position ∈ next.reads, position ∈ reads) (fits : next.Fits (shared.setHandle dst new).handles)
    (settled : ∀ position ∈ writes, position ∉ next.changes → ∀ handle,
      (shared.setHandle dst new).handles[position]? = some handle → handle.Settled)
    (opens : ∀ source, next.opens source = 0) (blocks : ∀ source, next.blocks source = 0)
    (destroys : ∀ source, next.destroys source = 0)
    (owes : ∀ source, new.counts source + next.owes source = handle.counts source) :
    Effect shared .idle writes reads (shared.setHandle dst new) next := by
  constructor
  · intro position outside
    have different : dst ≠ position := fun same => outside (same ▸ within)
    simp [Shared.setHandle,different]
  · exact changes
  · exact reads_
  · exact fits
  · exact settled
  · intro source
    have moved := total_set (Handle.counts source) new found
    have balance := owes source
    have upper : total (Handle.counts source) (shared.handles.set dst new) + next.owes source =
        total (Handle.counts source) shared.handles := by omega
    have lower := congrArg (total (blockCounts source) shared.blocks + ·) (blocks source)
    have equal : part (shared.setHandle dst new) next source = part shared .idle source :=
      Object.ext rfl (opens source) upper lower rfl (destroys source) rfl
    rw [equal]
    exact .stay
  · exact fun calm _ => calm

theorem effect_set (dst : Nat) (reads : List Nat) (new : Handle) (found : shared.handles[dst]? = some handle)
    (reads_ : ∀ position ∈ next.reads, position ∈ reads) (changes : ∀ position ∈ next.changes, position ∈ [dst])
    (fits : next.Fits (shared.setHandle dst new).handles) (settled : dst ∉ next.changes → new.Settled)
    (opens : ∀ source, next.opens source = 0) (blocks : ∀ source, next.blocks source = 0)
    (destroys : ∀ source, next.destroys source = 0)
    (owes : ∀ source, new.counts source + next.owes source = handle.counts source) :
    Effect shared .idle [dst] reads (shared.setHandle dst new) next := by
  apply effect_replace dst [dst] reads new found List.mem_cons_self changes reads_ fits _ opens blocks destroys owes
  intro position inside outside after at_
  obtain rfl := List.mem_singleton.mp inside
  rw [setHandle_eq_modify shared position new found,List.getElem?_modify_eq,found] at at_
  obtain rfl := Option.some.inj at_
  exact settled outside

theorem effect_begin (writes reads : List Nat) (changes : ∀ position ∈ next.changes, position ∈ writes)
    (reads_ : ∀ position ∈ next.reads, position ∈ reads) (fits : next.Fits shared.handles)
    (settled : ∀ position ∈ writes, position ∉ next.changes → ∀ handle, shared.handles[position]? = some handle →
      handle.Settled)
    (opens : ∀ source, next.opens source = 0) (owes : ∀ source, next.owes source = 0)
    (blocks : ∀ source, next.blocks source = 0) (destroys : ∀ source, next.destroys source = 0) :
    Effect shared .idle writes reads shared next where
  handles _ _ := rfl
  changes := changes
  reads := reads_
  fits := fits
  settled := settled
  moves source := move_stay (opens source) (owes source) (blocks source) (destroys source) rfl rfl rfl rfl rfl
  calm calm _ := calm

theorem enter_create {dst : Nat} (rested : Rested shared.handles threads)
    (entered : enter shared threads (.create dst) = some (changed,next)) :
    Effect shared .idle [dst] [] changed next ∧ writable threads dst = true := by
  simp only [enter] at entered
  split at entered
  next handle found =>
    split at entered
    next => cases entered
    next allowed =>
      obtain ⟨absent,free⟩ : handle.constructed = false ∧ writable threads dst = true := by simpa using allowed
      obtain ⟨rfl,rfl⟩ := Prod.mk.inj (Option.some.inj entered)
      have vacant := (rested.writable found free).vacant absent
      exact ⟨effect_begin [dst] [] (fun _ inside => inside) (fun _ inside => inside) ⟨handle,found,vacant⟩
        (fun _ inside outside => absurd inside outside) (fun _ => rfl) (fun _ => rfl) (fun _ => rfl) (fun _ => rfl),free⟩
  next => cases entered

theorem enter_construct {dst : Nat} (rested : Rested shared.handles threads)
    (entered : enter shared threads (.construct dst) = some (changed,next)) :
    Effect shared .idle [dst] [] changed next ∧ writable threads dst = true := by
  simp only [enter] at entered
  split at entered
  next handle found =>
    split at entered
    next => cases entered
    next allowed =>
      obtain ⟨absent,free⟩ : handle.constructed = false ∧ writable threads dst = true := by simpa using allowed
      obtain ⟨rfl,rfl⟩ := Prod.mk.inj (Option.some.inj entered)
      have vacant := (rested.writable found free).vacant absent
      refine ⟨effect_set dst [] ⟨true,none,none⟩ found ?_ ?_ trivial ?_ ?_ ?_ ?_ ?_,free⟩
      · exact fun _ inside => inside
      · exact fun _ inside => absurd inside List.not_mem_nil
      · exact fun _ => ⟨rfl,fun _ => rfl⟩
      · exact fun _ => rfl
      · exact fun _ => rfl
      · exact fun _ => rfl
      · intro source
        simp [Handle.counts,vacant,Pc.owes]
  next => cases entered

theorem enter_copy {dst src : Nat} (rested : Rested shared.handles threads)
    (entered : enter shared threads (.copy dst src) = some (changed,next)) :
    Effect shared .idle [dst] [src] changed next ∧ writable threads dst = true ∧ readable threads src = true := by
  simp only [enter] at entered
  split at entered
  next handle other found foundOther =>
    split at entered
    next => cases entered
    next allowed =>
      obtain ⟨absent,present,free,kept⟩ : handle.constructed = false ∧ other.constructed = true ∧
          writable threads dst = true ∧ readable threads src = true := by simpa using allowed
      have vacant := (rested.writable found free).vacant absent
      have same := (rested.readable foundOther kept).eq present
      have different : src ≠ dst := by
        rintro rfl
        obtain rfl := Option.some.inj (found.symm.trans foundOther)
        simp [absent] at present
      have bound := (List.getElem?_eq_some_iff.mp found).1
      refine ⟨?_,free,kept⟩
      obtain ⟨rfl,rfl⟩ := Prod.mk.inj (Option.some.inj entered)
      cases pointed : other.msource with
      | none =>
        apply effect_set dst [src] ⟨true,none,none⟩ found
        · exact fun _ inside => absurd inside List.not_mem_nil
        · exact fun _ inside => absurd inside List.not_mem_nil
        · trivial
        · exact fun _ => ⟨rfl,fun _ => rfl⟩
        · exact fun _ => rfl
        · exact fun _ => rfl
        · exact fun _ => rfl
        · intro source
          simp [Handle.counts,vacant,Pc.owes]
      | some source =>
        rw [pointed] at same
        apply effect_set dst [src] ⟨true,some source,none⟩ found
        · exact fun _ inside => inside
        · exact fun _ inside => inside
        · refine ⟨different,?_,?_⟩
          · simp [Holds,Shared.setHandle,Ne.symm different,foundOther,← same]
          · simp [Shared.setHandle,bound]
        · exact fun outside => absurd List.mem_cons_self outside
        · exact fun _ => rfl
        · exact fun _ => rfl
        · exact fun _ => rfl
        · intro other
          simp [Handle.counts,vacant,Pc.owes]
  next => cases entered

theorem enter_move {dst src : Nat} (rested : Rested shared.handles threads)
    (entered : enter shared threads (.move dst src) = some (changed,next)) :
    Effect shared .idle [dst,src] [] changed next ∧ writable threads dst = true ∧ writable threads src = true := by
  simp only [enter] at entered
  split at entered
  next handle other found foundOther =>
    split at entered
    next => cases entered
    next allowed =>
      obtain ⟨absent,present,free,freeOther⟩ : handle.constructed = false ∧ other.constructed = true ∧
          writable threads dst = true ∧ writable threads src = true := by simpa using allowed
      have vacant := (rested.writable found free).vacant absent
      have settled := rested.writable foundOther freeOther
      have different : src ≠ dst := by
        rintro rfl
        obtain rfl := Option.some.inj (found.symm.trans foundOther)
        simp [absent] at present
      obtain ⟨rfl,rfl⟩ := Prod.mk.inj (Option.some.inj entered)
      have still : (shared.handles.set dst other)[src]? = some other := by
        rw [List.getElem?_set_ne (Ne.symm different)]
        exact foundOther
      refine ⟨?_,free,freeOther⟩
      constructor
      · intro position outside
        have first : dst ≠ position := fun same => outside (by simp [same])
        have second : src ≠ position := fun same => outside (by simp [same])
        simp [Shared.setHandle,first,second]
      · exact fun _ inside => absurd inside List.not_mem_nil
      · exact fun _ inside => absurd inside List.not_mem_nil
      · trivial
      · intro position inside _ after at_
        simp only [Shared.setHandle] at at_
        by_cases same : src = position
        · subst same
          rw [List.getElem?_set_self (List.getElem?_eq_some_iff.mp still).1] at at_
          obtain rfl := Option.some.inj at_
          exact ⟨rfl,fun _ => rfl⟩
        · obtain first | second := List.mem_cons.mp inside
          · subst first
            rw [List.getElem?_set_ne same,List.getElem?_set_self (List.getElem?_eq_some_iff.mp found).1] at at_
            obtain rfl := Option.some.inj at_
            exact settled
          · exact absurd (List.mem_singleton.mp second).symm same
      · intro source
        have first := total_set (Handle.counts source) other found
        have second := total_set (Handle.counts source) ⟨true,none,none⟩ still
        have handles : total (Handle.counts source) ((shared.handles.set dst other).set src ⟨true,none,none⟩) =
            total (Handle.counts source) shared.handles := by
          have zero : handle.counts source = 0 := by simp [Handle.counts,vacant]
          have none_ : Handle.counts source ⟨true,none,none⟩ = 0 := rfl
          omega
        exact move_stay rfl rfl rfl rfl rfl rfl handles rfl rfl
      · exact fun calm _ => calm
  next => cases entered

theorem enter_assign {dst src : Nat} (rested : Rested shared.handles threads)
    (entered : enter shared threads (.assign dst src) = some (changed,next)) :
    Effect shared .idle [dst] [src] changed next ∧ writable threads dst = true ∧ readable threads src = true := by
  simp only [enter] at entered
  split at entered
  next handle other found foundOther =>
    split at entered
    next => cases entered
    next allowed =>
      obtain ⟨present,presentOther,free,kept⟩ : handle.constructed = true ∧ other.constructed = true ∧
          writable threads dst = true ∧ readable threads src = true := by simpa using allowed
      have settled := rested.writable found free
      have same := (rested.readable foundOther kept).eq presentOther
      have bound := (List.getElem?_eq_some_iff.mp found).1
      refine ⟨?_,free,kept⟩
      split at entered
      next equal =>
        obtain ⟨rfl,rfl⟩ := Prod.mk.inj (Option.some.inj entered)
        apply effect_begin
        · exact fun _ inside => absurd inside List.not_mem_nil
        · exact fun _ inside => absurd inside List.not_mem_nil
        · trivial
        · intro position inside _ after at_
          obtain rfl := List.mem_singleton.mp inside
          obtain rfl := Option.some.inj (found.symm.trans at_)
          exact settled
        · exact fun _ => rfl
        · exact fun _ => rfl
        · exact fun _ => rfl
        · exact fun _ => rfl
      next unequal =>
        have different : src ≠ dst := by
          rintro rfl
          obtain rfl := Option.some.inj (found.symm.trans foundOther)
          exact unequal rfl
        obtain ⟨rfl,rfl⟩ := Prod.mk.inj (Option.some.inj entered)
        cases pointed : other.msource with
        | some source =>
          rw [pointed] at same
          apply effect_set dst [src] ⟨true,some source,none⟩ found
          · exact fun _ inside => inside
          · exact fun _ inside => inside
          · refine ⟨different,?_,?_⟩
            · simp [Holds,Shared.setHandle,Ne.symm different,foundOther,← same]
            · simp [Shared.setHandle,bound]
          · exact fun outside => absurd List.mem_cons_self outside
          · exact fun _ => rfl
          · exact fun _ => rfl
          · exact fun _ => rfl
          · intro held
            simp [Handle.counts,settled.1,Pc.owes]
        | none =>
          cases own : handle.msource with
          | none => exact absurd (pointed.trans own.symm) unequal
          | some own_ =>
            apply effect_set dst [src] ⟨true,none,none⟩ found
            · exact fun _ inside => absurd inside List.not_mem_nil
            · exact fun _ inside => absurd inside List.not_mem_nil
            · trivial
            · exact fun _ => ⟨rfl,fun _ => rfl⟩
            · exact fun _ => rfl
            · exact fun _ => rfl
            · exact fun _ => rfl
            · intro held
              simp [Handle.counts,settled.1,own,Pc.owes]
  next => cases entered

theorem enter_moveAssign {dst src : Nat} (rested : Rested shared.handles threads)
    (entered : enter shared threads (.moveAssign dst src) = some (changed,next)) :
    Effect shared .idle [dst,src] [] changed next ∧ writable threads dst = true ∧ writable threads src = true := by
  simp only [enter] at entered
  split at entered
  next handle other found foundOther =>
    split at entered
    next => cases entered
    next allowed =>
      obtain ⟨present,presentOther,free,freeOther⟩ : handle.constructed = true ∧ other.constructed = true ∧
          writable threads dst = true ∧ writable threads src = true := by simpa using allowed
      have settled := rested.writable found free
      have same := (rested.writable foundOther freeOther).eq presentOther
      have shape := settled.eq present
      refine ⟨?_,free,freeOther⟩
      split at entered
      next own pointed =>
        obtain ⟨rfl,rfl⟩ := Prod.mk.inj (Option.some.inj entered)
        rw [pointed] at shape
        have emptied : (shared.setCounted dst none) = shared.setHandle dst ⟨true,some own,none⟩ := by
          simp only [Shared.setCounted,Shared.setHandle,modify_eq_set _ found]
          rw [shape]
        have bound := (List.getElem?_eq_some_iff.mp found).1
        have filled : (shared.setHandle dst ⟨true,some own,none⟩).handles[dst]? = some ⟨true,some own,none⟩ := by
          simp [Shared.setHandle,bound]
        rw [emptied]
        apply effect_replace dst [dst,src] [] ⟨true,some own,none⟩ found List.mem_cons_self
        · exact fun _ inside => inside
        · exact fun _ inside => absurd inside List.not_mem_nil
        · refine ⟨⟨_,filled,rfl⟩,?_,some own,filled⟩
          by_cases self : src = dst
          · exact ⟨some own,none,self ▸ filled,fun contrary => absurd self contrary⟩
          · refine ⟨other.msource,other.msource,?_,fun _ => rfl⟩
            simp only [Shared.setHandle,List.getElem?_set_ne (Ne.symm self),← same]
            exact foundOther
        · exact fun _ inside outside => absurd inside outside
        · exact fun _ => rfl
        · exact fun _ => rfl
        · exact fun _ => rfl
        · intro source
          rw [shape]
          simp [Handle.counts,Pc.owes]
      next pointed =>
        obtain ⟨rfl,rfl⟩ := Prod.mk.inj (Option.some.inj entered)
        rw [pointed] at shape
        apply effect_begin
        · exact fun _ inside => inside
        · exact fun _ inside => absurd inside List.not_mem_nil
        · refine ⟨⟨handle,found,by rw [shape]⟩,⟨other.msource,other.msource,same ▸ foundOther,fun _ => rfl⟩,none,?_⟩
          rw [found,shape]
        · exact fun _ inside outside => absurd inside outside
        · exact fun _ => rfl
        · exact fun _ => rfl
        · exact fun _ => rfl
        · exact fun _ => rfl
  next => cases entered

theorem enter_destruct {dst : Nat} (rested : Rested shared.handles threads)
    (entered : enter shared threads (.destruct dst) = some (changed,next)) :
    Effect shared .idle [dst] [] changed next ∧ writable threads dst = true := by
  simp only [enter] at entered
  split at entered
  next handle found =>
    split at entered
    next => cases entered
    next allowed =>
      obtain ⟨present,free⟩ : handle.constructed = true ∧ writable threads dst = true := by simpa using allowed
      have settled := rested.writable found free
      have shape := settled.eq present
      refine ⟨?_,free⟩
      split at entered
      next own pointed =>
        obtain ⟨rfl,rfl⟩ := Prod.mk.inj (Option.some.inj entered)
        rw [pointed] at shape
        have emptied : (shared.setCounted dst none) = shared.setHandle dst ⟨true,some own,none⟩ := by
          simp only [Shared.setCounted,Shared.setHandle,modify_eq_set _ found]
          rw [shape]
        have bound := (List.getElem?_eq_some_iff.mp found).1
        rw [emptied]
        apply effect_set dst [] ⟨true,some own,none⟩ found
        · exact fun _ inside => absurd inside List.not_mem_nil
        · exact fun _ inside => inside
        · exact ⟨⟨true,some own,none⟩,by simp [Shared.setHandle,bound],rfl⟩
        · exact fun outside => absurd List.mem_cons_self outside
        · exact fun _ => rfl
        · exact fun _ => rfl
        · exact fun _ => rfl
        · intro source
          rw [shape]
          simp [Handle.counts,Pc.owes]
      next pointed =>
        obtain ⟨rfl,rfl⟩ := Prod.mk.inj (Option.some.inj entered)
        rw [pointed] at shape
        apply effect_begin
        · exact fun _ inside => inside
        · exact fun _ inside => absurd inside List.not_mem_nil
        · exact ⟨handle,found,by rw [shape]⟩
        · exact fun _ inside outside => absurd inside outside
        · exact fun _ => rfl
        · exact fun _ => rfl
        · exact fun _ => rfl
        · exact fun _ => rfl
  next => cases entered

theorem enter_alloc {aligned : Bool} (rested : Rested shared.handles threads)
    (entered : enter shared threads (.alloc position aligned) = some (changed,next)) :
    Effect shared .idle [] [position] changed next ∧ readable threads position = true := by
  simp only [enter] at entered
  split at entered
  next handle found =>
    split at entered
    next => cases entered
    next allowed =>
      obtain ⟨present,kept⟩ : handle.constructed = true ∧ readable threads position = true := by simpa using allowed
      have shape := (rested.readable found kept).eq present
      refine ⟨?_,kept⟩
      obtain ⟨source,pointed,same⟩ := Option.map_eq_some_iff.mp entered
      obtain ⟨rfl,rfl⟩ := Prod.mk.inj same
      rw [pointed] at shape
      apply effect_begin
      · exact fun _ inside => absurd inside List.not_mem_nil
      · exact fun _ inside => inside
      · exact found.trans (congrArg some shape)
      · exact fun _ inside => absurd inside List.not_mem_nil
      · exact fun _ => rfl
      · exact fun _ => rfl
      · exact fun _ => rfl
      · exact fun _ => rfl
  next => cases entered

theorem enter_free {block : Nat} (entered : enter shared threads (.free block) = some (changed,next)) :
    Effect shared .idle [] [] changed next := by
  simp only [enter] at entered
  split at entered
  next taken found =>
    obtain ⟨rfl,rfl⟩ := Prod.mk.inj (Option.some.inj entered)
    have lower (source : Source) : total (blockCounts source) (shared.blocks.set block none) +
        (if taken = source then 1 else 0) = total (blockCounts source) shared.blocks := by
      have moved := total_set (blockCounts source) none found
      simpa [blockCounts] using moved
    constructor
    · exact fun _ _ => rfl
    · exact fun _ inside => inside
    · exact fun _ inside => inside
    · trivial
    · exact fun _ inside => absurd inside List.not_mem_nil
    · intro source
      have equal : part {shared.touch taken with blocks := shared.blocks.set block none} (.free taken) source =
          part shared .idle source := Object.ext rfl rfl rfl (lower source) rfl rfl rfl
      rw [equal]
      exact .stay
    · intro calm kept
      have held : 0 < (part shared .idle taken).lower := by
        have counted := lower taken
        simp only [if_true] at counted
        simp only [part]
        omega
      exact touch_calm calm (.inr (.inr (.inl held))) kept
  next => cases entered

theorem enter_effect {call : Call} (rested : Rested shared.handles threads)
    (entered : enter shared threads call = some (changed,next)) :
    Effect shared .idle call.changes call.reads changed next ∧
      (∀ position ∈ call.changes, writable threads position = true) ∧
      ∀ position ∈ call.reads, readable threads position = true := by
  cases call with
  | create dst =>
    obtain ⟨effect,free⟩ := enter_create rested entered
    exact ⟨effect,by simpa [Call.changes] using free,by simp [Call.reads]⟩
  | construct dst =>
    obtain ⟨effect,free⟩ := enter_construct rested entered
    exact ⟨effect,by simpa [Call.changes] using free,by simp [Call.reads]⟩
  | copy dst src =>
    obtain ⟨effect,free,kept⟩ := enter_copy rested entered
    exact ⟨effect,by simpa [Call.changes] using free,by simpa [Call.reads] using kept⟩
  | move dst src =>
    obtain ⟨effect,free,freeOther⟩ := enter_move rested entered
    exact ⟨effect,by simpa [Call.changes] using ⟨free,freeOther⟩,by simp [Call.reads]⟩
  | assign dst src =>
    obtain ⟨effect,free,kept⟩ := enter_assign rested entered
    exact ⟨effect,by simpa [Call.changes] using free,by simpa [Call.reads] using kept⟩
  | moveAssign dst src =>
    obtain ⟨effect,free,freeOther⟩ := enter_moveAssign rested entered
    exact ⟨effect,by simpa [Call.changes] using ⟨free,freeOther⟩,by simp [Call.reads]⟩
  | destruct dst =>
    obtain ⟨effect,free⟩ := enter_destruct rested entered
    exact ⟨effect,by simpa [Call.changes] using free,by simp [Call.reads]⟩
  | alloc position aligned =>
    obtain ⟨effect,kept⟩ := enter_alloc rested entered
    exact ⟨effect,by simp [Call.changes],by simpa [Call.reads] using kept⟩
  | free block => exact ⟨enter_free entered,by simp [Call.changes],by simp [Call.reads]⟩

end Enter

structure Inv (state : State) : Prop where
  fits : ∀ pc ∈ state.threads, pc.Fits state.shared.handles
  rested : Rested state.shared.handles state.threads
  apart : ∀ (first second : Nat) (one other : Pc), first ≠ second → state.threads[first]? = some one →
    state.threads[second]? = some other → ∀ position ∈ one.changes, position ∉ other.changes ∧ position ∉ other.reads
  sound : ∀ source, (state.object source).Sound BlockCount.ref (2^64)
  calm : state.shared.faulted = false

/-- A step of one thread, on handles that the other threads do not use. -/
structure Steps (state : State) (thread : Nat) (pc : Pc) (writes reads : List Nat) (changed : Shared) (next : Pc) :
    Prop where
  here : state.threads[thread]? = some pc
  effect : Effect state.shared pc writes reads changed next
  covers : ∀ position ∈ pc.changes, position ∈ writes
  writes : ∀ position ∈ writes, ∀ other pc, other ≠ thread → state.threads[other]? = some pc →
    position ∉ pc.changes ∧ position ∉ pc.reads
  reads : ∀ position ∈ reads, ∀ other pc, other ≠ thread → state.threads[other]? = some pc → position ∉ pc.changes

section Run
variable {state final : State} {action : Action} {thread : Nat} {pc next : Pc} {writes reads : List Nat}
  {changed : Shared}

theorem step_cases (inv : Inv state) (stepped : step state action = some final) :
    ∃ pc writes reads changed next, Steps state action.thread pc writes reads changed next ∧
      final = ⟨changed,state.threads.set action.thread next⟩ := by
  cases action with
  | call thread call =>
    simp only [step] at stepped
    split at stepped
    next here =>
      obtain ⟨⟨changed,next⟩,entered,rfl⟩ := Option.map_eq_some_iff.mp stepped
      obtain ⟨effect,free,kept⟩ := enter_effect inv.rested entered
      refine ⟨.idle,call.changes,call.reads,changed,next,⟨here,effect,fun _ inside => absurd inside List.not_mem_nil,
        ?_,?_⟩,rfl⟩
      · intro position inside other pc _ found
        exact writable_iff.mp (free position inside) pc (List.mem_of_getElem? found)
      · intro position inside other pc _ found
        exact readable_iff.mp (kept position inside) pc (List.mem_of_getElem? found)
    next => cases stepped
  | advance thread choice =>
    simp only [step] at stepped
    split at stepped
    next pc here =>
      obtain ⟨⟨changed,next⟩,acted,rfl⟩ := Option.map_eq_some_iff.mp stepped
      have fits := inv.fits pc (List.mem_of_getElem? here)
      refine ⟨pc,pc.changes,pc.reads,changed,next,⟨here,act_effect fits acted,fun _ inside => inside,?_,?_⟩,rfl⟩
      · intro position inside other pc different found
        exact inv.apart thread other _ pc (Ne.symm different) here found position inside
      · intro position inside other pc different found contrary
        exact (inv.apart other thread pc _ different found here position contrary).2 inside
    next => cases stepped

theorem After.Fits.congr {before after : List Handle} {rest : After} (fits : rest.Fits before)
    (same : ∀ position ∈ rest.changes, after[position]? = before[position]?) : rest.Fits after := by
  cases rest with
  | done => trivial
  | move dst src =>
    have first := same dst List.mem_cons_self
    have second := same src (List.mem_cons_of_mem _ List.mem_cons_self)
    simpa only [After.Fits,Vacant,first,second] using fits
  | destruct dst =>
    have first := same dst List.mem_cons_self
    simpa only [After.Fits,Vacant,first] using fits

theorem Pc.Fits.congr {before after : List Handle} (fits : pc.Fits before)
    (same : ∀ position, position ∈ pc.changes ∨ position ∈ pc.reads → after[position]? = before[position]?) :
    pc.Fits after := by
  cases pc with
  | create dst =>
    have first := same dst (.inl List.mem_cons_self)
    simpa only [Pc.Fits,Vacant,first] using fits
  | createRef dst source =>
    have first := same dst (.inl List.mem_cons_self)
    simpa only [Pc.Fits,Vacant,first] using fits
  | copyRef dst src source =>
    have first := same dst (.inl List.mem_cons_self)
    have second := same src (.inr List.mem_cons_self)
    simpa only [Pc.Fits,Holds,first,second] using fits
  | assignRef dst src source old =>
    have first := same dst (.inl List.mem_cons_self)
    have second := same src (.inr List.mem_cons_self)
    simpa only [Pc.Fits,Holds,first,second] using fits
  | unref source rest => exact After.Fits.congr fits fun position inside => same position (.inl inside)
  | deref source rest => exact After.Fits.congr fits fun position inside => same position (.inl inside)
  | destroy source rest => exact After.Fits.congr fits fun position inside => same position (.inl inside)
  | finish rest => exact After.Fits.congr fits fun position inside => same position (.inl inside)
  | alloc position source aligned =>
    have first := same position (.inr List.mem_cons_self)
    simpa only [Pc.Fits,Holds,first] using fits
  | addBlock position source aligned =>
    have first := same position (.inr List.mem_cons_self)
    simpa only [Pc.Fits,Holds,first] using fits
  | _ => trivial

/-- What the other threads hold of a source is the same before and after. -/
theorem Steps.frame (steps : Steps state thread pc writes reads changed next) (source : Source) :
    ∃ opening upper lower due,
      state.object source = (part state.shared pc source).frame opening upper lower due ∧
      (State.mk changed (state.threads.set thread next)).object source =
        (part changed next source).frame opening upper lower due := by
  have here := steps.here
  refine ⟨total (Pc.opens source) state.threads - pc.opens source,total (Pc.owes source) state.threads - pc.owes source,
    total (Pc.blocks source) state.threads - pc.blocks source,
    total (Pc.destroys source) state.threads - pc.destroys source,?_,?_⟩
  · have opens := weight_le_total (Pc.opens source) here
    have owes := weight_le_total (Pc.owes source) here
    have blocks := weight_le_total (Pc.blocks source) here
    have destroys := weight_le_total (Pc.destroys source) here
    apply Object.ext <;> simp only [State.object,part,Object.frame] <;> omega
  · have opens := weight_le_total (Pc.opens source) here
    have owes := weight_le_total (Pc.owes source) here
    have blocks := weight_le_total (Pc.blocks source) here
    have destroys := weight_le_total (Pc.destroys source) here
    have opensSet := total_set (Pc.opens source) next here
    have owesSet := total_set (Pc.owes source) next here
    have blocksSet := total_set (Pc.blocks source) next here
    have destroysSet := total_set (Pc.destroys source) next here
    apply Object.ext <;> simp only [State.object,part,Object.frame] <;> omega

theorem Steps.move (steps : Steps state thread pc writes reads changed next) (source : Source) :
    Move BlockCount.ref (2^64) (state.object source)
      ((State.mk changed (state.threads.set thread next)).object source) := by
  obtain ⟨opening,upper,lower,due,before,after⟩ := steps.frame source
  rw [before,after]
  exact (steps.effect.moves source).frame opening upper lower due

def State.liveHandles (state : State) (source : Source) : Nat := (state.object source).upper
def State.liveBlocks (state : State) (source : Source) : Nat := (state.object source).lower

/-- There is room for the counts of every source in its word. -/
def State.Bounded (state : State) : Prop :=
  ∀ source, state.liveHandles source < 2^24 ∧ state.liveBlocks source < 2^40

theorem State.Bounded.fits (bounded : state.Bounded) (source : Source) :
    (state.object source).Fits BlockCount.ref (2^64) := by
  obtain ⟨handles,blocks⟩ := bounded source
  simp only [State.liveHandles,State.liveBlocks] at handles blocks
  simp only [Object.Fits,BlockCount.ref,BlockCount.blockBits]
  omega

theorem Inv.steps (inv : Inv state) (bounded : state.Bounded)
    (steps : Steps state thread pc writes reads changed next) :
    Inv ⟨changed,state.threads.set thread next⟩ := by
  have apartNext : ∀ other pc, other ≠ thread → state.threads[other]? = some pc →
      (∀ position ∈ next.changes, position ∉ pc.changes ∧ position ∉ pc.reads) ∧
        ∀ position ∈ next.reads, position ∉ pc.changes := by
    intro other pc different found
    exact ⟨fun position inside => steps.writes position (steps.effect.changes position inside) other pc different found,
      fun position inside => steps.reads position (steps.effect.reads position inside) other pc different found⟩
  constructor
  · intro other inside
    obtain rfl | ⟨position,different,found⟩ := mem_set_cases inside
    · exact steps.effect.fits
    · apply (inv.fits other (List.mem_of_getElem? found)).congr
      intro place used
      apply steps.effect.handles
      intro written
      have unused := steps.writes place written position other different found
      exact used.elim unused.1 unused.2
  · intro position handle found untouched
    have bound := (List.getElem?_eq_some_iff.mp steps.here).1
    have own := untouched next (List.mem_iff_getElem?.mpr ⟨thread,by simp [bound]⟩)
    by_cases written : position ∈ writes
    · exact steps.effect.settled position written own handle found
    · have same := steps.effect.handles position written
      apply inv.rested position handle (same.symm.trans found)
      intro other inside
      obtain ⟨place,at_⟩ := List.mem_iff_getElem?.mp inside
      by_cases mine : place = thread
      · subst mine
        obtain rfl := Option.some.inj (steps.here.symm.trans at_)
        exact fun contrary => written (steps.covers position contrary)
      · apply untouched other
        apply List.mem_iff_getElem?.mpr
        exact ⟨place,by rw [List.getElem?_set_ne (Ne.symm mine)]; exact at_⟩
  · intro first second one other different foundOne foundOther position inside
    by_cases mine : first = thread
    · subst mine
      have bound := (List.getElem?_eq_some_iff.mp steps.here).1
      rw [List.getElem?_set_self bound] at foundOne
      rw [List.getElem?_set_ne different] at foundOther
      obtain rfl := Option.some.inj foundOne
      exact (apartNext second other (Ne.symm different) foundOther).1 position inside
    · rw [List.getElem?_set_ne (Ne.symm mine)] at foundOne
      by_cases theirs : second = thread
      · subst theirs
        have bound := (List.getElem?_eq_some_iff.mp steps.here).1
        rw [List.getElem?_set_self bound] at foundOther
        obtain rfl := Option.some.inj foundOther
        obtain ⟨changes,reads_⟩ := apartNext first one mine foundOne
        exact ⟨fun contrary => (changes position contrary).1 inside,fun contrary => reads_ position contrary inside⟩
      · rw [List.getElem?_set_ne (Ne.symm theirs)] at foundOther
        exact inv.apart first second one other different foundOne foundOther position inside
  · intro source
    exact (steps.move source).sound (inv.sound source) (bounded.fits source) (by decide) (by decide)
  · apply steps.effect.calm inv.calm
    intro source alive
    obtain ⟨opening,upper,lower,due,before,_⟩ := steps.frame source
    have alive_ : (state.object source).Alive := before ▸ alive.frame opening upper lower due
    exact List.count_eq_zero.mp ((inv.sound source).alive alive_)

theorem inv_start (handles threads : Nat) : Inv (.start handles threads) := by
  constructor
  · intro pc inside
    rw [List.eq_of_mem_replicate inside]
    trivial
  · intro position handle found _
    rw [List.eq_of_mem_replicate (List.mem_of_getElem? found)]
    exact ⟨rfl,fun _ => rfl⟩
  · intro first second one other _ found _ position inside
    rw [List.eq_of_mem_replicate (List.mem_of_getElem? found)] at inside
    cases inside
  · intro source
    have light (weight : Pc → Nat) (zero : weight .idle = 0) : total weight (List.replicate threads .idle) = 0 :=
      total_replicate weight threads zero
    have none_ : total (Handle.counts source) (List.replicate handles ⟨false,none,none⟩) = 0 :=
      total_replicate _ handles rfl
    have empty : (State.start handles threads).object source = .unborn 0 := by
      simp only [State.object,State.start,none_,light (Pc.opens source) rfl,light (Pc.owes source) rfl,
        light (Pc.blocks source) rfl,light (Pc.destroys source) rfl]
      rfl
    rw [empty]
    exact sound_unborn 0
  · rfl

/-- No handle, no block and no creation in flight is left of the source. -/
def State.Released (state : State) (source : Source) : Prop := (state.object source).Dead

def Pc.Destroys (source : Source) (pc : Pc) : Prop := ∃ after, pc = .destroy source after

structure State.Exact (state : State) : Prop where
  /-- The word of a source is its live handles and its live blocks. -/
  counter : ∀ source < state.shared.sources, state.shared.values source =
    state.liveHandles source * BlockCount.ref + state.liveBlocks source
  /-- Between calls these are the handles that point to it and the blocks handed out. -/
  quiet : (∀ pc ∈ state.threads, pc = .idle) → ∀ source,
    state.liveHandles source = state.shared.handles.countP (fun handle => handle.msource = some source) ∧
    state.liveBlocks source = state.shared.blocks.count (some source)
  once : ∀ source, state.Released source →
    state.shared.destroyed.count source + total (Pc.destroys source) state.threads = 1
  never : ∀ source, ¬state.Released source →
    source ∉ state.shared.destroyed ∧ ∀ pc ∈ state.threads, ¬pc.Destroys source
  /-- The thread that goes on to destroy a source is the one whose step released it. -/
  last : ∀ action next source, step state action = some next →
    (((∃ pc, next.threads[action.thread]? = some pc ∧ pc.Destroys source) ∧
      ¬∃ pc, state.threads[action.thread]? = some pc ∧ pc.Destroys source) ↔
        ¬state.Released source ∧ next.Released source)
  unfaulted : state.shared.faulted = false

theorem destroys_eq (source : Source) (pc : Pc) :
    pc.destroys source = 1 ∧ pc.Destroys source ∨ pc.destroys source = 0 ∧ ¬pc.Destroys source := by
  cases pc with
  | destroy ended after =>
    by_cases same : ended = source
    · exact .inl ⟨by simp [Pc.destroys,same],after,by rw [same]⟩
    · refine .inr ⟨by simp [Pc.destroys,same],?_⟩
      rintro ⟨_,equal⟩
      cases equal
      exact same rfl
  | _ =>
    refine .inr ⟨rfl,?_⟩
    rintro ⟨_,equal⟩
    cases equal

theorem Inv.last (inv : Inv state) (bounded : state.Bounded) (source : Source) {next : State}
    (stepped : step state action = some next) :
    ((∃ pc, next.threads[action.thread]? = some pc ∧ pc.Destroys source) ∧
      ¬∃ pc, state.threads[action.thread]? = some pc ∧ pc.Destroys source) ↔
        ¬state.Released source ∧ next.Released source := by
  obtain ⟨pc,writes,reads,changed,after,steps,rfl⟩ := step_cases inv stepped
  have here := steps.here
  have bound := (List.getElem?_eq_some_iff.mp here).1
  have due := (steps.move source).due_iff (inv.sound source) (bounded.fits source) (by decide) (by decide)
  unfold State.Released
  rw [← due]
  have moved := total_set (Pc.destroys source) after here
  simp only [State.object,List.getElem?_set_self bound,here,Option.some.injEq,exists_eq_left']
  obtain ⟨one,before⟩ | ⟨zero,before⟩ := destroys_eq source pc <;>
    obtain ⟨oneAfter,then_⟩ | ⟨zeroAfter,then_⟩ := destroys_eq source after <;>
      simp only [before,then_] <;> simp only [not_true,not_false_eq_true,and_true,and_false,true_iff,false_iff] <;> omega

theorem Inv.exact (inv : Inv state) (bounded : state.Bounded) : state.Exact := by
  constructor
  · intro source born
    have word := (inv.sound source).word (by simpa [State.object,Nat.blt_eq] using born)
    have room := (bounded.fits source).2
    rwa [Nat.mod_eq_of_lt room] at word
  · intro idle source
    have owes : total (Pc.owes source) state.threads = 0 := total_eq_zero.mpr fun pc inside => by rw [idle pc inside]; rfl
    have blocks : total (Pc.blocks source) state.threads = 0 := total_eq_zero.mpr fun pc inside => by rw [idle pc inside]; rfl
    constructor
    · rw [← total_eq_countP]
      simp only [State.liveHandles,State.object,owes,Nat.add_zero]
      apply total_congr
      intro handle inside
      obtain ⟨position,found⟩ := List.mem_iff_getElem?.mp inside
      have settled := inv.rested position handle found fun pc member => by rw [idle pc member]; exact List.not_mem_nil
      simp [Handle.counts,settled.1]
    · rw [List.count,← total_eq_countP]
      simp only [State.liveBlocks,State.object,blocks,Nat.add_zero]
      apply total_congr
      intro block _
      simp [blockCounts]
  · intro source released
    have one := (inv.sound source).once released
    simp only [State.object] at one
    omega
  · intro source left
    have none_ := (inv.sound source).never left
    simp only [State.object] at none_
    refine ⟨List.count_eq_zero.mp (by omega),?_⟩
    intro pc inside destroys
    have light := total_eq_zero.mp (show total (Pc.destroys source) state.threads = 0 by omega) pc inside
    obtain ⟨after,rfl⟩ := destroys
    simp [Pc.destroys] at light
  · exact fun action next source stepped => inv.last bounded source stepped
  · exact inv.calm

end Run

/-- The words have room for the counts in every state of the run. -/
theorem counts_exact (handles threads : Nat) (actions : List Action) (final : State)
    (ran : run step (.start handles threads) actions = some final)
    (bounded : Meets step (fun state _ => state.Bounded) (.start handles threads) actions) (fits : final.Bounded) :
    final.Exact := by
  have inv : Inv final := by
    apply invariant_of_meets Inv _ (inv_start handles threads) bounded ran
    intro state action next inv bounded stepped
    obtain ⟨pc,writes,reads,changed,after,steps,rfl⟩ := step_cases inv stepped
    exact inv.steps bounded steps
  exact inv.exact fits

def State.isSmall (state : State) : Bool :=
  state.shared.handles.length + state.threads.length < 2^24 ∧ state.shared.blocks.length + state.threads.length < 2^40

theorem State.bounded_of_isSmall {state : State} (small : state.isSmall = true) : state.Bounded := by
  obtain ⟨handles,blocks⟩ := of_decide_eq_true small
  intro source
  have counts := total_le_length (Handle.counts source) (fun handle => by simp only [Handle.counts]; split <;> omega)
    state.shared.handles
  have owes := total_le_length (Pc.owes source) (fun pc => by cases pc <;> simp only [Pc.owes] <;> grind)
    state.threads
  have counted := total_le_length (blockCounts source) (fun block => by simp only [blockCounts]; split <;> omega)
    state.shared.blocks
  have held := total_le_length (Pc.blocks source) (fun pc => by cases pc <;> simp only [Pc.blocks] <;> grind)
    state.threads
  simp only [State.liveHandles,State.liveBlocks,State.object]
  omega

def lastBlock : List Action :=
  Action.call 0 (.create 0) :: List.replicate 2 (Action.advance 0 1) ++
    Action.call 0 (.copy 1 0) :: Action.call 1 (.alloc 0 true) ::
      [Action.advance 0 1,Action.advance 1 1,Action.advance 1 1,Action.advance 1 1] ++
    Action.call 0 (.moveAssign 1 1) :: Action.call 1 (.destruct 0) ::
      [Action.advance 0 0,Action.advance 1 0,Action.advance 0 0,Action.advance 1 0] ++
    [Action.advance 0 0,Action.advance 1 0] ++ Action.call 0 (.free 0) :: List.replicate 4 (Action.advance 0 0)

theorem counts_exact_lastBlock : ∃ final, run step (.start 2 2) lastBlock = some final ∧
    final.shared.destroyed = [0] ∧ final.Exact := by
  have evaluated : (run step (.start 2 2) lastBlock).any (fun final =>
      final.isSmall ∧ final.shared.destroyed = [0]) = true := by decide +kernel
  obtain ⟨final,ran,tested⟩ := (Option.any_eq_true _ _).mp evaluated
  obtain ⟨small,destroyed⟩ := of_decide_eq_true tested
  have checked : checks step (fun state _ => state.isSmall) (.start 2 2) lastBlock = true := by decide +kernel
  have bounded : Meets step (fun state _ => state.Bounded) (.start 2 2) lastBlock :=
    meets_of_checks _ (fun state _ small => State.bounded_of_isSmall small) checked
  exact ⟨final,ran,destroyed,counts_exact 2 2 lastBlock final ran bounded (State.bounded_of_isSmall small)⟩

end Pgasus.Handles
