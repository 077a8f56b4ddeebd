import NemeaSupervisor.Invariants
import NemeaSupervisor.ServiceExchange

/-!
# The descriptors of service connections

A slot that is connected holds a descriptor of its own that has been opened and
not been closed, and no descriptor is open that no slot holds. The flag and the
descriptor of a slot are written apart, and the descriptor of a slot that was
never started is 0, so the invariant says what a slot without a connection holds.
-/

namespace NemeaSupervisor

open Loop

/-- A connected module runs and has a descriptor; a started one without a connection has none. -/
structure SlotLink (m : RunningModule) : Prop where
  connected : m.moduleServiceIfcIsconnected = true → m.moduleStatus = true ∧ 0 ≤ m.moduleServiceSd
  started : m.moduleServiceIfcIsconnected = false → m.moduleStatus = true ∨ m.modulePid > 0 →
    m.moduleServiceSd = -1

/-- The connection of a slot. -/
def RunningModule.link (m : RunningModule) : Option Int :=
  if m.moduleServiceIfcIsconnected then some m.moduleServiceSd else none

/-- The descriptors that the slots hold. -/
def connections (l : List RunningModule) : List Int := l.filterMap RunningModule.link

/-- Every close was of a descriptor open at that time. -/
def ClosesOpen : List Event → Prop
  | [] => True
  | .closed sd :: older => sd ∈ openSds older ∧ ClosesOpen older
  | _ :: older => ClosesOpen older

/-- Each open descriptor is held by one slot, and every close was of an open one. -/
structure LinkInv (w : World) : Prop where
  slots : ∀ m ∈ w.sup.loaded, SlotLink m
  held : (openSds w.kernel.trace).Perm (connections w.sup.loaded)
  distinct : (openSds w.kernel.trace).Nodup
  closes : ClosesOpen w.kernel.trace

/-- A trace goes on without a new connection. -/
def NoneOpened (older trace : List Event) : Prop :=
  ∃ newer, trace = newer ++ older ∧ ∀ sd, .connected sd ∉ newer

/-- The same in the running thread where no connection has been opened since an earlier state. -/
structure LinkedSince (w0 w : World) : Prop extends LinkInv w where
  since : NoneOpened w0.kernel.trace w.kernel.trace
  exited : w.serviceExited = w0.serviceExited

theorem LinkInv.self {w : World} (h : LinkInv w) : LinkedSince w w :=
  ⟨h, ⟨[], rfl, fun _ => List.not_mem_nil⟩, rfl⟩

theorem NoneOpened.trans {t t1 t2 : List Event} (h : NoneOpened t t1) (h' : NoneOpened t1 t2) :
    NoneOpened t t2 := by
  obtain ⟨newer, rfl, hnew⟩ := h
  obtain ⟨newest, rfl, hnewest⟩ := h'
  exact ⟨newest ++ newer, by rw [List.append_assoc], fun sd hsd =>
    (List.mem_append.mp hsd).elim (hnewest sd) (hnew sd)⟩

/-- What is open and has not been opened since was open before. -/
theorem mem_openSds_older {newer older : List Event} {sd : Int}
    (h : sd ∈ openSds (newer ++ older)) (hnew : .connected sd ∉ newer) : sd ∈ openSds older := by
  induction newer with
  | nil => exact h
  | cons e newer ih =>
    have hnew' : .connected sd ∉ newer := fun h => hnew (List.mem_cons_of_mem _ h)
    cases e with
    | connected sd' =>
      rcases List.mem_cons.mp h with rfl | h
      · exact absurd List.mem_cons_self hnew
      · exact ih h hnew'
    | closed sd' => exact ih (List.mem_of_mem_erase h) hnew'
    | _ => exact ih h hnew'

def Event.isLink : Event → Bool
  | .connected _ => true
  | .closed _ => true
  | _ => false

/-- Calls that neither open nor close a connection. -/
def SameLinks (k k' : Kernel) : Prop :=
  ∃ newer, k'.trace = newer ++ k.trace ∧ ∀ e ∈ newer, e.isLink = false

theorem SameLinks.of_trace {k k' : Kernel} (h : k'.trace = k.trace) : SameLinks k k' :=
  ⟨[], h, fun _ he => absurd he List.not_mem_nil⟩

theorem SameLinks.refl (k : Kernel) : SameLinks k k := .of_trace rfl

theorem SameLinks.record (k : Kernel) {e : Event} (h : e.isLink = false) :
    SameLinks k (k.record e) :=
  ⟨[e], rfl, fun _ he => List.mem_singleton.mp he ▸ h⟩

theorem SameLinks.trans {k k1 k2 : Kernel} (h : SameLinks k k1) (h' : SameLinks k1 k2) :
    SameLinks k k2 := by
  obtain ⟨newer, heq, hnew⟩ := h
  obtain ⟨newest, heq', hnewest⟩ := h'
  exact ⟨newest ++ newer, by rw [heq', heq, List.append_assoc], fun e he =>
    (List.mem_append.mp he).elim (hnewest e) (hnew e)⟩

theorem SameLinks.noneOpened {k k' : Kernel} (h : SameLinks k k') :
    NoneOpened k.trace k'.trace := by
  obtain ⟨newer, heq, hnew⟩ := h
  exact ⟨newer, heq, fun sd hsd => absurd (hnew _ hsd) (by simp [Event.isLink])⟩

theorem openSds_append {newer : List Event} (h : ∀ e ∈ newer, e.isLink = false)
    (older : List Event) : openSds (newer ++ older) = openSds older ∧
      (ClosesOpen older → ClosesOpen (newer ++ older)) := by
  induction newer with
  | nil => exact ⟨rfl, id⟩
  | cons e newer ih =>
    have ih := ih fun e he => h e (List.mem_cons_of_mem _ he)
    have he := h e List.mem_cons_self
    cases e with
    | connected | closed => exact absurd he (by simp [Event.isLink])
    | _ => exact ih

theorem SameLinks.opened {k k' : Kernel} (h : SameLinks k k') :
    openSds k'.trace = openSds k.trace := by
  obtain ⟨newer, heq, hnew⟩ := h
  rw [heq, (openSds_append hnew _).1]

theorem SameLinks.closes {k k' : Kernel} (h : SameLinks k k') (hcloses : ClosesOpen k.trace) :
    ClosesOpen k'.trace := by
  obtain ⟨newer, heq, hnew⟩ := h
  rw [heq]
  exact (openSds_append hnew _).2 hcloses

theorem turn_sameLinks (k : Kernel) : SameLinks k k.turn.2 := .of_trace (turn_trace k)

/-! ## The descriptors of a changed table -/

theorem link_eq_some {m : RunningModule} {sd : Int} :
    m.link = some sd ↔ m.moduleServiceIfcIsconnected = true ∧ m.moduleServiceSd = sd := by
  unfold RunningModule.link
  split_ifs with h <;> simp [h]

theorem link_eq_none {m : RunningModule} :
    m.link = none ↔ m.moduleServiceIfcIsconnected = false := by
  unfold RunningModule.link
  split_ifs with h <;> simp [h]

theorem mem_connections {l : List RunningModule} {sd : Int} :
    sd ∈ connections l ↔ ∃ m ∈ l, m.moduleServiceIfcIsconnected = true ∧ m.moduleServiceSd = sd := by
  simp only [connections, List.mem_filterMap, link_eq_some]

theorem connections_congr {l l' : List RunningModule}
    (h : l'.map RunningModule.link = l.map RunningModule.link) : connections l' = connections l := by
  have hid : ∀ l : List RunningModule, connections l = (l.map RunningModule.link).filterMap id :=
    fun l => by rw [List.filterMap_map]; rfl
  rw [hid, hid, h]

theorem connections_set_same {l : List RunningModule} {x : Nat} {m m' : RunningModule}
    (hx : l[x]? = some m) (hlink : m'.link = m.link) : connections (l.set x m') = connections l :=
  connections_congr (map_set_same hx hlink)

/-- The slots before and after one. -/
theorem split_getElem? {α : Type} {l : List α} {x : Nat} {a : α} (hx : l[x]? = some a) :
    l = l.take x ++ a :: l.drop (x + 1) ∧ (l.take x).length = x := by
  obtain ⟨hlt, rfl⟩ := List.getElem?_eq_some_iff.mp hx
  exact ⟨by rw [← List.drop_eq_getElem_cons hlt, List.take_append_drop],
    List.length_take_of_le hlt.le⟩

/-- A slot that loses its connection. -/
theorem connections_shut {l : List RunningModule} {x : Nat} {m m' : RunningModule} {sd : Int}
    (hx : l[x]? = some m) (hlink : m.link = some sd) (hnone : m'.link = none) :
    (connections l).Perm (sd :: connections (l.set x m')) := by
  obtain ⟨hl, hlen⟩ := split_getElem? hx
  rw [List.set_eq_take_append_cons_drop, if_pos (List.getElem?_eq_some_iff.mp hx).1]
  conv_lhs => rw [hl]
  simp only [connections, List.filterMap_append, List.filterMap_cons, hlink, hnone]
  exact List.perm_middle

/-- No two slots hold one descriptor. -/
theorem connections_inj {l : List RunningModule} (h : (connections l).Nodup) {x y : Nat}
    {m m' : RunningModule} (hx : l[x]? = some m) (hy : l[y]? = some m') {sd : Int}
    (hlink : m.link = some sd) (hlink' : m'.link = some sd) : x = y := by
  by_contra hne
  have hshut : (connections l).Perm (sd :: connections (l.set x .zero)) :=
    connections_shut hx hlink rfl
  have hset : (l.set x .zero)[y]? = some m' := by rw [List.getElem?_set_ne hne, hy]
  have hmem : sd ∈ connections (l.set x .zero) :=
    mem_connections.mpr ⟨m', List.mem_of_getElem? hset, link_eq_some.mp hlink'⟩
  exact (List.nodup_cons.mp (hshut.nodup_iff.mp h)).1 hmem

theorem connections_freed {l : List RunningModule} {x : Nat} {m : RunningModule}
    (hx : l[x]? = some m) (hnone : m.link = none) : connections (l.eraseIdx x) = connections l := by
  obtain ⟨hl, -⟩ := split_getElem? hx
  rw [List.eraseIdx_eq_take_drop_succ]
  conv_rhs => rw [hl]
  simp only [connections, List.filterMap_append, List.filterMap_cons, hnone]

/-! ## What a pass may do to one slot -/

theorem SlotLink.congr {m m' : RunningModule} (h : SlotLink m)
    (hconnected : m'.moduleServiceIfcIsconnected = m.moduleServiceIfcIsconnected)
    (hsd : m'.moduleServiceSd = m.moduleServiceSd) (hstatus : m'.moduleStatus = m.moduleStatus)
    (hpid : m'.modulePid = m.modulePid) : SlotLink m' :=
  ⟨by rw [hconnected, hsd, hstatus]; exact h.connected,
    by rw [hconnected, hsd, hstatus, hpid]; exact h.started⟩

/-- A slot without a connection and without a descriptor. -/
theorem SlotLink.none {m : RunningModule} (hconnected : m.moduleServiceIfcIsconnected = false)
    (hsd : m.moduleServiceSd = -1) : SlotLink m :=
  ⟨fun h => absurd (hconnected.symm.trans h) (by decide), fun _ _ => hsd⟩

section slot

variable {w0 w : World} {x : Nat} {m m' : RunningModule} {k : Kernel}

theorem LinkedSince.kernel (h : LinkedSince w0 w) (hk : SameLinks w.kernel k) :
    LinkedSince w0 { w with kernel := k } :=
  ⟨⟨h.slots, hk.opened ▸ h.held, hk.opened ▸ h.distinct, hk.closes h.closes⟩,
    h.since.trans hk.noneOpened, h.exited⟩

/-- The slot keeps its connection. -/
theorem LinkedSince.keep (h : LinkedSince w0 w) (hx : w.sup.loaded[x]? = some m)
    (hk : SameLinks w.kernel k) (hm : SlotLink m') (hlink : m'.link = m.link) :
    LinkedSince w0 (({ w with kernel := k } : World).setModule x m') := by
  refine ⟨⟨fun m1 hm1 => ?_, ?_, hk.opened ▸ h.distinct, hk.closes h.closes⟩,
    h.since.trans hk.noneOpened, h.exited⟩
  · rcases mem_setModule hm1 with rfl | hm1
    · exact hm
    · exact h.slots m1 hm1
  · exact hk.opened ▸ (connections_set_same hx hlink).symm ▸ h.held

/-- The slot loses its connection, and its descriptor is closed. -/
theorem LinkedSince.shut (h : LinkedSince w0 w) (hx : w.sup.loaded[x]? = some m)
    (hk : SameLinks w.kernel k) {sd : Int} (hlink : m.link = some sd) (hm : SlotLink m')
    (hnone : m'.link = none) :
    LinkedSince w0 (({ w with kernel := k.close sd } : World).setModule x m') := by
  have hshut := connections_shut hx hlink hnone
  have hopen : sd ∈ openSds k.trace :=
    (hk.opened ▸ h.held).mem_iff.mpr (hshut.mem_iff.mpr List.mem_cons_self)
  refine ⟨⟨fun m1 hm1 => ?_, ?_, ?_, hopen, hk.closes h.closes⟩, ?_, h.exited⟩
  · rcases mem_setModule hm1 with rfl | hm1
    · exact hm
    · exact h.slots m1 hm1
  · have hheld := ((hk.opened ▸ h.held).trans hshut).erase sd
    rwa [List.erase_cons_head] at hheld
  · exact (hk.opened ▸ h.distinct).erase sd
  · refine (h.since.trans hk.noneOpened).trans ⟨[.closed sd], rfl, fun sd' hsd' => ?_⟩
    exact absurd (List.mem_singleton.mp hsd') (by simp)

/-- The slot gets a new descriptor. -/
theorem LinkInv.connect (h : LinkInv w) (hx : w.sup.loaded[x]? = some m)
    (hk : SameLinks w.kernel k) {sd : Int} (hfresh : sd ∉ openSds k.trace) (hm : SlotLink m')
    (hnone : m.link = none) (hlink : m'.link = some sd) :
    LinkInv (({ w with kernel := k.record (.connected sd) } : World).setModule x m') := by
  obtain ⟨hlt, hget⟩ := List.getElem?_eq_some_iff.mp hx
  have hset : (w.sup.loaded.set x m')[x]? = some m' := List.getElem?_set_self hlt
  have hopened := connections_shut hset hlink hnone
  rw [List.set_set, ← hget, List.set_getElem_self] at hopened
  refine ⟨fun m1 hm1 => ?_, ?_, ?_, hk.closes h.closes⟩
  · rcases mem_setModule hm1 with rfl | hm1
    · exact hm
    · exact h.slots m1 hm1
  · exact ((hk.opened ▸ h.held).cons sd).trans hopened.symm
  · exact List.nodup_cons.mpr ⟨hfresh, hk.opened ▸ h.distinct⟩

/-- The descriptor of a slot goes, whether it is open or closed already. -/
theorem LinkedSince.closeServiceSd (h : LinkedSince w0 w) (hx : w.sup.loaded[x]? = some m)
    (hk : SameLinks w.kernel k)
    (hlive : m.moduleServiceIfcIsconnected = true ∨ m.moduleStatus = true ∨ m.modulePid > 0)
    (hm : SlotLink m') (hnone : m'.link = none) :
    LinkedSince w0
      (({ w with kernel := (closeServiceSd k m).1 } : World).setModule x m') := by
  have hslot := h.slots m (List.mem_of_getElem? hx)
  unfold NemeaSupervisor.closeServiceSd
  cases hconnected : m.moduleServiceIfcIsconnected with
  | true =>
    obtain ⟨-, hsd⟩ := hslot.connected hconnected
    rw [if_pos (by omega)]
    exact h.shut hx hk (link_eq_some.mpr ⟨hconnected, rfl⟩) hm hnone
  | false =>
    have hsd := hslot.started hconnected (hlive.resolve_left (by simp [hconnected]))
    rw [if_neg (by simp [hsd])]
    exact h.keep hx hk hm (hnone.trans (link_eq_none.mpr hconnected).symm)

/-- A disconnection writes its slot only. -/
theorem disconnect_spec (x : Nat) (m : RunningModule) (w : World) :
    ∃ k m', serviceDisconnectFromModule x m w = ({ w with kernel := k } : World).setModule x m' ∧
      m'.moduleServiceIfcIsconnected = false := by
  unfold serviceDisconnectFromModule
  split_ifs with hconnected
  · exact ⟨_, _, rfl, rfl⟩
  · exact ⟨w.kernel, _, rfl, by simpa using hconnected⟩

theorem LinkedSince.disconnect (h : LinkedSince w0 w) (hx : w.sup.loaded[x]? = some m) :
    LinkedSince w0 (serviceDisconnectFromModule x m w) := by
  unfold serviceDisconnectFromModule
  split_ifs with hconnected
  · obtain ⟨-, -, hm⟩ := closeServiceSd_kernel w.kernel m
    simp only [hm]
    exact h.closeServiceSd hx (.refl _) (.inl hconnected) (.none rfl rfl) (link_eq_none.mpr rfl)
  · exact h.keep hx (.refl _) ((h.slots m (List.mem_of_getElem? hx)).congr rfl rfl rfl rfl) rfl

end slot

/-! ## The passes -/

section passes

variable {w0 w : World}

theorem loop_linked {body : Nat → World → World}
    (hbody : ∀ x w, LinkedSince w0 w → LinkedSince w0 (body x w)) (h : LinkedSince w0 w)
    (n : Nat) : LinkedSince w0 (forRange n body w) :=
  forRange_invariant (fun _ => LinkedSince w0) h fun x t _ ht => hbody x t ht

theorem checkModuleStatus_linked (x : Nat) {st : World × Nat} (h : LinkedSince w0 st.1) :
    LinkedSince w0 (checkModuleStatus x st).1 := by
  obtain ⟨w, n⟩ := st
  unfold checkModuleStatus
  simp only []
  cases hx : w.sup.loaded[x]? with
  | none => exact h
  | some m =>
    by_cases hpid : m.modulePid > 0
    · obtain ⟨r, hr, -⟩ := kill0_spec w.kernel m.modulePid
      have hslot := h.slots m (List.mem_of_getElem? hx)
      have hk := turn_sameLinks w.kernel
      have hseen : ∀ root, SlotLink { m with moduleStatus := true, moduleRootPermNeeded := root } :=
        fun root => ⟨fun hc => ⟨rfl, (hslot.connected hc).2⟩,
          fun hc _ => hslot.started hc (.inr hpid)⟩
      simp only [hpid, if_true, hr]
      cases r with
      | ok => exact h.keep hx hk (hseen false) rfl
      | eperm => exact h.keep hx hk (hseen true) rfl
      | esrch =>
        obtain ⟨-, -, hm⟩ := closeServiceSd_kernel w.kernel.turn.2 m
        simp only [hm]
        exact h.closeServiceSd hx hk (.inr (.inr hpid)) (.none rfl rfl) (link_eq_none.mpr rfl)
    · simp only [hpid, if_false]
      exact h

theorem serviceCheckModulesStatus_linked (h : LinkedSince w0 w) :
    LinkedSince w0 (serviceCheckModulesStatus w).1 :=
  forRange_invariant (s := (w, 0)) (fun _ (st : World × Nat) => LinkedSince w0 st.1) h
    fun x _ _ ht => checkModuleStatus_linked x ht

theorem cleanAfterChild_linked (x : Nat) (w : World) (h : LinkedSince w0 w) :
    LinkedSince w0 (cleanAfterChild x w) := by
  unfold cleanAfterChild
  cases hx : w.sup.loaded[x]? with
  | none => exact h
  | some m =>
    have hslot := h.slots m (List.mem_of_getElem? hx)
    have hk := turn_sameLinks w.kernel
    simp only []
    split_ifs
    · obtain ⟨r, ⟨hr, -⟩ | hr⟩ := waitpid_spec w.kernel m.modulePid
      · rw [hr]
        cases r with
        | echild => exact h.keep hx hk (hslot.congr rfl rfl rfl rfl) rfl
        | stillAlive => exact h.kernel hk
        | exited => exact h.kernel hk
      · rw [hr]
        exact h.kernel (hk.trans (.of_trace rfl))
    · exact h

theorem stopModuleSigint_linked (x : Nat) (w : World) (h : LinkedSince w0 w) :
    LinkedSince w0 (stopModuleSigint x w) := by
  unfold stopModuleSigint
  cases hx : w.sup.loaded[x]? with
  | none => exact h
  | some m =>
    have hslot := h.slots m (List.mem_of_getElem? hx)
    simp only []
    split_ifs
    · exact h.keep hx (.record _ rfl) (hslot.congr rfl rfl rfl rfl) rfl
    · exact h

theorem stopModuleSigkill_linked (x : Nat) (w : World) (h : LinkedSince w0 w) :
    LinkedSince w0 (stopModuleSigkill x w) := by
  unfold stopModuleSigkill
  cases hx : w.sup.loaded[x]? with
  | none => exact h
  | some m =>
    have hslot := h.slots m (List.mem_of_getElem? hx)
    simp only []
    split_ifs
    · exact h.keep hx (.record _ rfl) (hslot.congr rfl rfl rfl rfl) rfl
    · exact h

/-- A start writes a slot without a connection. -/
theorem serviceStartModule_linked {x : Nat} {m : RunningModule} (h : LinkedSince w0 w)
    (hx : w.sup.loaded[x]? = some m) (hstatus : m.moduleStatus = false) :
    LinkedSince w0 (serviceStartModule x m w) := by
  have hoff : m.link = none := by
    rw [link_eq_none, ← Bool.not_eq_true]
    intro hconnected
    have := ((h.slots m (List.mem_of_getElem? hx)).connected hconnected).1
    exact absurd (hstatus.symm.trans this) (by decide)
  have hcalled : SameLinks w.kernel (w.kernel.record (.startCalled m (w.sup.profileOf m)
      (w.sup.maxRestarts m) (w.kernel.ownerAlive m.moduleName))) := .record _ rfl
  unfold serviceStartModule
  simp only []
  generalize w.kernel.record (.startCalled m (w.sup.profileOf m) (w.sup.maxRestarts m)
    (w.kernel.ownerAlive m.moduleName)) = k at hcalled
  have hk := hcalled.trans (turn_sameLinks k)
  rcases fork_spec k (fun pid => w.sup.loaded.any fun m => m.modulePid == pid)
    m.moduleName m.launch with hf | ⟨pid, -, -, -, hf⟩
  · rw [hf]
    exact h.keep hx hk (.none rfl rfl) hoff.symm
  · rw [hf]
    exact h.keep hx (hk.trans (.record _ rfl)) (.none rfl rfl) hoff.symm

theorem tickRestartTimer_slotLink {m : RunningModule} (h : SlotLink m) :
    SlotLink (tickRestartTimer m) ∧ (tickRestartTimer m).link = m.link := by
  unfold tickRestartTimer
  split_ifs <;> exact ⟨h.congr rfl rfl rfl rfl, rfl⟩

theorem updateModuleStatus_linked (x : Nat) (w : World) (h : LinkedSince w0 w) :
    LinkedSince w0 (updateModuleStatus x w) := by
  unfold updateModuleStatus
  cases hx : w.sup.loaded[x]? with
  | none => exact h
  | some m =>
    obtain ⟨hslot, hlink⟩ := tickRestartTimer_slotLink (h.slots m (List.mem_of_getElem? hx))
    have htick : LinkedSince w0 (w.setModule x (tickRestartTimer m)) :=
      h.keep hx (.refl _) hslot hlink
    have hx' : (w.setModule x (tickRestartTimer m)).sup.loaded[x]? = some (tickRestartTimer m) :=
      setModule_get hx
    simp only []
    split_ifs with hlimit hstart
    · exact htick.keep hx' (.refl _) (hslot.congr rfl rfl rfl rfl) rfl
    · exact serviceStartModule_linked htick hx' hstart.2.1
    · exact htick

theorem LinkedSince.freed {x : Nat} {m : RunningModule} {e : Event} (h : LinkedSince w0 w)
    (hx : w.sup.loaded[x]? = some m) (hnone : m.link = none)
    (hk : SameLinks w.kernel (w.kernel.record e)) :
    LinkedSince w0
      { w with sup := freeModuleAndShiftArray w.sup x, kernel := w.kernel.record e } := by
  refine ⟨⟨fun m1 hm1 => h.slots m1 (mem_freed hm1), ?_, hk.opened ▸ h.distinct,
    hk.closes h.closes⟩, h.since.trans hk.noneOpened, h.exited⟩
  have hheld := hk.opened ▸ h.held
  rw [← connections_freed hx hnone] at hheld
  simpa only [freeModuleAndShiftArray, if_pos (List.getElem?_eq_some_iff.mp hx).1] using hheld

theorem serveModule_linked (y : Nat) (w : World) (h : LinkedSince w0 w) :
    LinkedSince w0 (serveModule y w) := by
  unfold serveModule
  cases hy : w.sup.loaded[y]? with
  | none => exact h
  | some m =>
    have hslot := h.slots m (List.mem_of_getElem? hy)
    simp only []
    split_ifs with hserved hremove hstatus hinit hstatus
    · refine h.freed hy (link_eq_none.mpr ?_) (.record _ rfl)
      rw [← Bool.not_eq_true]
      intro hconnected
      exact absurd (hstatus.symm.trans (hslot.connected hconnected).1) (by decide)
    · exact h
    · exact h.keep hy (.refl _) (hslot.congr rfl rfl rfl rfl) rfl
    · exact h.disconnect hy
    · exact h.keep hy (.refl _) (hslot.congr rfl rfl rfl rfl) rfl
    · exact h

/-- When the thread ends every connection is closed. -/
theorem serviceThreadExit_linked (h : LinkedSince w0 w) :
    LinkInv (serviceThreadExit w) ∧
      NoneOpened w0.kernel.trace (serviceThreadExit w).kernel.trace ∧
      openSds (serviceThreadExit w).kernel.trace = [] := by
  have hloop := @forRange_invariant _ w.sup.loadedModulesCnt disconnectModule w
    (fun x t => LinkedSince w0 t ∧ t.sup.loaded.length = w.sup.loaded.length ∧
      ∀ y m, y < x → t.sup.loaded[y]? = some m → m.moduleServiceIfcIsconnected = false)
    ⟨h, rfl, fun y m hy => absurd hy (Nat.not_lt_zero y)⟩ ?_
  · obtain ⟨hlinked, hlen, hoff⟩ := hloop
    refine ⟨⟨hlinked.slots, hlinked.held, hlinked.distinct, hlinked.closes⟩, hlinked.since, ?_⟩
    refine List.eq_nil_iff_forall_not_mem.mpr fun sd hsd => ?_
    obtain ⟨m, hm, hconnected, -⟩ := mem_connections.mp (hlinked.held.mem_iff.mp hsd)
    obtain ⟨y, hy⟩ := List.mem_iff_getElem?.mp hm
    have hlt := (List.getElem?_eq_some_iff.mp hy).1
    have hfalse := hoff y m (by rwa [hlen] at hlt) hy
    exact absurd (hfalse.symm.trans hconnected) (by decide)
  · intro x t hlt ⟨hlinked, hlen, hoff⟩
    have hlt' : x < t.sup.loaded.length := hlen ▸ hlt
    have hx : t.sup.loaded[x]? = some t.sup.loaded[x] := List.getElem?_eq_getElem hlt'
    obtain ⟨k, m', heq, hm'⟩ := disconnect_spec x t.sup.loaded[x] t
    simp only [disconnectModule, hx]
    refine ⟨hlinked.disconnect hx, by simpa [heq, World.setModule, Supervisor.setModule] using hlen,
      fun y m hy hget => ?_⟩
    rw [heq] at hget
    rcases getElem?_setModule hx hget with ⟨-, rfl⟩ | ⟨hne, hget⟩
    · exact hm'
    · exact hoff y m (by omega) hget

end passes

/-! ## Commands, reloads and the start -/

theorem LinkInv.table {w : World} (h : LinkInv w) {s : Supervisor}
    (hslots : ∀ m ∈ s.loaded, SlotLink m)
    (hconnections : connections s.loaded = connections w.sup.loaded) :
    LinkInv { w with sup := s } :=
  ⟨hslots, hconnections ▸ h.held, h.distinct, h.closes⟩

theorem LinkInv.command {w : World} (h : LinkInv w) {enabling : Bool} {s' : Supervisor}
    (hc : Command enabling w.sup s') : LinkInv { w with sup := s' } := by
  have set : ∀ {x m m'}, w.sup.loaded[x]? = some m → SlotLink m' → m'.link = m.link →
      LinkInv { w with sup := w.sup.setModule x m' } :=
    fun hx hm hlink => (h.self.keep hx (.refl _) hm hlink).toLinkInv
  cases hc with
  | enable _ hx =>
    exact set hx ((h.slots _ (List.mem_of_getElem? hx)).congr rfl rfl rfl rfl) rfl
  | disable hx => exact set hx ((h.slots _ (List.mem_of_getElem? hx)).congr rfl rfl rfl rfl) rfl
  | restart hx => exact set hx ((h.slots _ (List.mem_of_getElem? hx)).congr rfl rfl rfl rfl) rfl
  | profile i enabled => exact h.table h.slots rfl
  | stop =>
    refine h.table (fun m' hm' => ?_) (connections_congr ?_)
    · obtain ⟨m, hm, rfl⟩ := List.mem_map.mp hm'
      exact (h.slots m hm).congr rfl rfl rfl rfl
    · rw [interactiveStopConfiguration, List.map_map]
      rfl

/-- The connection of a slot is in its process part. -/
theorem SlotLink.of_process {m m' : RunningModule} (h : SlotLink m)
    (hprocess : m'.process = m.process) : SlotLink m' :=
  h.congr (field_of_process RunningModule.moduleServiceIfcIsconnected (fun _ => rfl) hprocess)
    (field_of_process RunningModule.moduleServiceSd (fun _ => rfl) hprocess)
    (field_of_process RunningModule.moduleStatus (fun _ => rfl) hprocess)
    (field_of_process RunningModule.modulePid (fun _ => rfl) hprocess)

theorem LinkInv.reload {w : World} (htable : TableInv w.sup) (h : LinkInv w) {choice : ReloadChoice}
    (hc : choice ≠ .initLoadConfig) {root : XmlNode} (hg : Grammar root) {s' : Supervisor}
    (hr : Reloaded choice w.sup root.xmlChildrenNode s') : LinkInv { w with sup := s' } := by
  have hd := hg.goodDocs
  have hnew : ∀ {d} k, d ∈ newDocs w.sup (docModules root.xmlChildrenNode) →
      (reloadNew choice d (slotAt (resetTable w.sup) k)).process = RunningModule.zero :=
    fun k hdoc => reloadNew_process hc htable (hd.grammar _ (mem_newDocs.mp hdoc).1) k
  have hold : ∀ m ∈ w.sup.loaded,
      (reloadOld choice (docModules root.xmlChildrenNode) m).process = m.process :=
    fun m hm => (reloadOld_process hc htable hd hm).1
  refine h.table (fun m' hm' => ?_) ?_
  · obtain ⟨x, hx⟩ := List.mem_iff_getElem?.mp hm'
    rcases hr.get hx with ⟨m, hm, rfl⟩ | ⟨-, d, hdoc, rfl⟩
    · have hmem := List.mem_of_getElem? hm
      exact (h.slots m hmem).of_process (hold m hmem)
    · have hzero : SlotLink RunningModule.zero :=
        ⟨fun h => absurd h (by decide), fun _ h => absurd h (by decide)⟩
      exact hzero.of_process (hnew _ (List.mem_of_getElem? hdoc))
  · have hlink : ∀ {m m' : RunningModule}, m'.process = m.process → m'.link = m.link :=
      field_of_process RunningModule.link fun _ => rfl
    have hnone : connections ((newDocs w.sup (docModules root.xmlChildrenNode)).mapIdx
        fun k d => reloadNew choice d (slotAt (resetTable w.sup) k)) = [] := by
      refine List.filterMap_eq_nil_iff.mpr fun m' hm' => ?_
      obtain ⟨k, hk, rfl⟩ := List.mem_mapIdx.mp hm'
      exact hlink (m := .zero) (hnew k (List.getElem_mem hk))
    rw [hr.loaded, connections, List.filterMap_append]
    have hmap : connections (w.sup.loaded.map
        (reloadOld choice (docModules root.xmlChildrenNode))) = connections w.sup.loaded := by
      refine connections_congr ?_
      rw [List.map_map]
      exact List.map_congr_left fun m hm => hlink (hold m hm)
    rw [connections] at hnone hmap
    rw [hnone, hmap, List.append_nil, connections]

/-- A slot of the initial table has no connection; its descriptor is 0 where no process is known. -/
theorem initialTable_slotLink (rootNode : Option XmlNode) {m : RunningModule}
    (hm : m ∈ (initialTable rootNode).loaded) : SlotLink m ∧ m.link = none := by
  have hinitial := initialTable_slot rootNode hm
  obtain ⟨b, l, i, e, m1, happlied, rfl⟩ := initialTable_applied rootNode hm
  have hconnected : m1.moduleServiceIfcIsconnected = false :=
    congrArg RunningModule.moduleServiceIfcIsconnected happlied.frame
  have hstatus := hinitial.status
  rw [finishSlot, restartIfModified_eq] at hstatus ⊢
  unfold adoptIfRunning at hstatus ⊢
  split_ifs at hstatus ⊢ with hadopt
  · exact ⟨.none rfl rfl, link_eq_none.mpr rfl⟩
  · refine ⟨⟨fun h => absurd (hconnected.symm.trans h) (by decide), fun _ hstarted => ?_⟩,
      link_eq_none.mpr hconnected⟩
    rcases hstarted with hrunning | hpid
    · exact absurd (hstatus.symm.trans hrunning) (by decide)
    · exact absurd ⟨rfl, hpid⟩ hadopt

theorem boot_opened (alive : List Int) (rootNode : Option XmlNode) :
    openSds (boot alive rootNode).kernel.trace = [] ∧
      ClosesOpen (boot alive rootNode).kernel.trace := by
  have hadopted : ∀ e ∈ (boot alive rootNode).kernel.trace, e.isLink = false := by
    intro e he
    obtain ⟨p, -, rfl⟩ := List.mem_map.mp he
    rfl
  obtain ⟨hopened, hcloses⟩ := openSds_append hadopted []
  rw [List.append_nil] at hopened hcloses
  exact ⟨hopened, hcloses trivial⟩

theorem boot_linkInv (alive : List Int) (rootNode : Option XmlNode) :
    LinkInv (boot alive rootNode) := by
  obtain ⟨hopened, hcloses⟩ := boot_opened alive rootNode
  have hnone : connections (boot alive rootNode).sup.loaded = [] :=
    List.filterMap_eq_nil_iff.mpr fun m hm => (initialTable_slotLink rootNode hm).2
  refine ⟨fun m hm => (initialTable_slotLink rootNode hm).1, ?_, ?_, hcloses⟩
  · rw [hopened, hnone]
  · rw [hopened]
    exact List.nodup_nil

end NemeaSupervisor
