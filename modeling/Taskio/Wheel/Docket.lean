import Taskio.Lib.Docket
import Taskio.Wheel.Pending

/-!
# The wheels carry out a docket

Those who use timers keep the handles that `taskio_runtime_add_timer` returned, and abort or fire the
timers by them, also long after their time and more than once.

* `timers_keep_docket_iff` — the wheels do what the docket does, exactly while no timer that is
  cancelled lies in a wheel coarser than the delay that remains
* `timer_meets_fate` — what becomes of one timer in such a run
-/

namespace Taskio

open Lib (Agenda Docket.Op)

/-! ## Users -/

/-- The timers, and the handles that were returned so far. -/
structure TimerUsers where
  rt : TimerRuntime
  handles : List TimerHandle

inductive TimerUse where
  | add (delay : UInt64) (handler data : Nat)
  | tick
  /-- by the handle that was returned as the `i`th -/
  | abort (i : Nat)
  | fire (i : Nat)
deriving DecidableEq

def timerUsers (nextTimerId : UInt64) : TimerUsers := { rt := wheelSetup nextTimerId, handles := [] }

def timerUse (s : TimerUsers) : TimerUse → Except Fault TimerUsers
  | .add delay handler data => do
    let (rt, handle) ← runtimeAddTimer s.rt delay handler data
    .ok { rt := rt, handles := s.handles ++ [handle] }
  | .tick => do
    let rt ← runtimeTick s.rt
    .ok { s with rt := rt }
  | .abort i =>
    match s.handles[i]? with
    | some handle => do
      let rt ← runtimeTimerAbort s.rt handle
      .ok { s with rt := rt }
    | none => .error .noSuchCall
  | .fire i =>
    match s.handles[i]? with
    | some handle => do
      let rt ← runtimeTimerFire s.rt handle
      .ok { s with rt := rt }
    | none => .error .noSuchCall

/-- What is to be done on the docket. -/
def docketOp (s : TimerUsers) : TimerUse → List (Docket.Op Timer TimerHandle)
  | .add delay handler data => (addedBy s.rt (.add delay handler data)).toList.map .add
  | .tick => [.tick]
  | .abort i => s.handles[i]?.toList.map .withdraw
  | .fire i => s.handles[i]?.toList.map .advance

/-- The docket after the operations. -/
def docketAfter (a : Agenda Timer) (os : List (Docket.Op Timer TimerHandle)) : Agenda Timer :=
  os.foldl (Lib.Docket.step Timer.expiryTime Timer.handle) a

/-- The timer of the handle is stored in a wheel that is not coarser than the delay that remains, if
it is stored at all. -/
def TimerRuntime.Findable (rt : TimerRuntime) (handle : TimerHandle) : Prop :=
  ∀ level b t, rt.Holds level b t → t.handle = handle → wheelRes level ≤ t.expiryTime - rt.now

/-- Who cancels a timer finds it. -/
def FindsTimer (s : TimerUsers) : TimerUse → Prop
  | .add _ _ _ | .tick => True
  | .abort i | .fire i => ∀ handle, s.handles[i]? = some handle → s.rt.Findable handle

instance (rt : TimerRuntime) (handle : TimerHandle) : Decidable (rt.Findable handle) :=
  decidable_of_iff (∀ p ∈ rt.wheels.zipIdx, ∀ l ∈ p.1.timerBuckets, ∀ t ∈ l, t.handle = handle →
      wheelRes p.2 ≤ t.expiryTime - rt.now) <| by
    constructor
    · rintro h level b t ⟨w, l, hw, hb, ht⟩ hh
      exact h (w, level) (List.mem_zipIdx_iff_getElem?.mpr hw) l (List.mem_of_getElem? hb) t ht hh
    · rintro h ⟨w, level⟩ hw l hl t ht hh
      obtain ⟨b, hb⟩ := List.mem_iff_getElem?.mp hl
      exact h level b t ⟨w, l, List.mem_zipIdx_iff_getElem?.mp hw, hb, ht⟩ hh

instance (s : TimerUsers) : ∀ o, Decidable (FindsTimer s o)
  | .add _ _ _ | .tick => isTrue trivial
  | .abort i | .fire i =>
    decidable_of_iff (∀ handle ∈ s.handles[i]?, s.rt.Findable handle) Iff.rfl

/-! ## One step -/

variable {n start k : Nat} {rt rt' : TimerRuntime} {s s' : TimerUsers}

theorem agenda_eq {a : Agenda Timer} (hnow : rt.now = a.now) (hpending : rt.pending = a.pending)
    (hcalled : rt.called = a.done) : rt.agenda = a := by
  unfold TimerRuntime.agenda
  rw [hnow, hpending, hcalled]

/-- A handle that was returned: there was no timer for it, or no other timer has its id. -/
def KnownHandle (start k : Nat) (rt : TimerRuntime) (handle : TimerHandle) : Prop :=
  handle.expiryTime = 0 ∨ handle.expiryTime < 2 ^ 64 ∧ (∃ j < k, handle.id = u64 (start + j)) ∧
    ∀ t ∈ rt.pending, t.id = handle.id → t.handle = handle

theorem KnownHandle.removed {handle : TimerHandle} (h : KnownHandle start k rt handle)
    (hsub : rt'.pending ⊆ rt.pending) : KnownHandle start k rt' handle := by
  rcases h with hzero | ⟨hfit, hid, hown⟩
  · exact Or.inl hzero
  · exact Or.inr ⟨hfit, hid, fun t ht => hown t (hsub ht)⟩

/-- The timers that were called since were stored, and are stored no more. -/
def CalledFrom (rt rt' : TimerRuntime) : Prop :=
  ∀ t ∈ rt'.called, t ∈ rt.called ∨ t ∈ rt.pending ∧ t ∉ rt'.pending

/-- What is always true of the users: the timers and the handles have ids of their own. -/
structure UsersSound (n start k : Nat) (s : TimerUsers) : Prop where
  valid : Valid n s.rt
  time : n < wheelSpan
  distinct : s.rt.Distinct
  ids : IdsFrom start k s.rt
  called : ∀ t ∈ s.rt.called, t ∉ s.rt.pending ∧ ∃ j < k, t.id = u64 (start + j)
  given : k ≤ s.handles.length
  handles : ∀ handle ∈ s.handles, KnownHandle start k s.rt handle

/-- A cancellation takes out what the docket takes out, or nothing where the docket does. -/
theorem remove_docket {predicate : TimerHandle → Timer → List Call → Predicate × List Call}
    {handle : TimerHandle} (keep : List Timer → List Timer) (h : Valid n rt) (hn : n < wheelSpan)
    (hids : rt.Distinct) (hhandle : KnownHandle start k rt handle)
    (hpred : ∀ l calls, vecRemoveIf (predicate handle) l calls =
      (l.eraseP (fun t => t.id = handle.id), calls ++ (keep (foundTimers l handle)).map .timer))
    (hkeep : keep [] = []) (hsub : ∀ l, keep l ⊆ l)
    (hok : runtimeTimerRemove (fun rt level handle => timerRemove (predicate handle) rt level handle)
      rt handle = .ok rt') :
    Valid n rt' ∧ rt'.nextTimerId = rt.nextTimerId ∧ rt'.pending ≤ rt.pending ∧ CalledFrom rt rt' ∧
      ((rt.Findable handle ∧ ∃ found : List Timer,
          (found : Multiset Timer) = rt.pending.filter (fun t => t.handle = handle) ∧
          rt'.pending = rt.pending.filter (fun t => t.handle ≠ handle) ∧
          rt'.called = rt.called + (keep found : List Timer)) ∨
        ¬ rt.Findable handle ∧ rt'.pending = rt.pending ∧ ∃ t ∈ rt.pending, t.handle = handle) := by
  have hnow := h.now_eq
  have hsame : rt'.calls = rt.calls → CalledFrom rt rt' := by
    intro hcalls t ht
    rw [TimerRuntime.called, hcalls] at ht
    exact Or.inl ht
  -- the docket has nothing to do where no timer has the handle
  have hnothing : (∀ t ∈ rt.pending, t.handle ≠ handle) → rt'.pending = rt.pending →
      rt'.calls = rt.calls → rt.Findable handle ∧ ∃ found : List Timer,
          (found : Multiset Timer) = rt.pending.filter (fun t => t.handle = handle) ∧
          rt'.pending = rt.pending.filter (fun t => t.handle ≠ handle) ∧
          rt'.called = rt.called + (keep found : List Timer) := by
    intro hnone hpend hcalls
    refine ⟨?_, [], ?_, ?_, ?_⟩
    · intro level b t ht hh
      exact absurd hh (hnone t ht.mem)
    · exact (Multiset.filter_eq_nil.mpr hnone).symm
    · rw [hpend, Multiset.filter_eq_self.mpr hnone]
    · rw [TimerRuntime.called, hcalls, hkeep]
      exact (add_zero _).symm
  rcases hhandle with hzero | ⟨hfit, -, hown⟩
  · obtain rfl : rt = rt' :=
      Except.ok.inj ((remove_late predicate h hn (by omega)).symm.trans hok)
    refine ⟨h, rfl, le_rfl, hsame rfl, Or.inl (hnothing ?_ rfl rfl)⟩
    rintro t ht rfl
    have hlate := h.now_lt ht
    have hexpiry : t.expiryTime = 0 := hzero
    omega
  · obtain ⟨rt₁, hok₁, hv, hid, hcases⟩ := remove_pending
      (fun found => (keep found).map .timer) h hn hfit hown hpred (by rw [hkeep]; rfl)
    obtain rfl : rt₁ = rt' := Except.ok.inj (hok₁.symm.trans hok)
    rcases hcases with ⟨level, b, t, ht, rfl, hle, hpend, hcalls⟩ | ⟨hmiss, hpend, hcalls⟩
    · have honly : ∀ x ∈ rt.pending, x.handle = t.handle → x = t :=
        fun x hx heq => hids.eq hx ht.mem (congrArg TimerHandle.id heq)
      have hrest : ∀ x ∈ rt₁.pending, x.handle ≠ t.handle := by
        intro x hx heq
        have hnodup := hids.nodup
        rw [hpend, Multiset.nodup_cons] at hnodup
        refine hnodup.1 ?_
        rwa [← honly x (by rw [hpend]; exact Multiset.mem_cons_of_mem hx) heq]
      refine ⟨hv, hid, by rw [hpend]; exact Multiset.le_cons_self _ _, ?_, Or.inl ⟨?_, [t], ?_, ?_, ?_⟩⟩
      · intro x hx
        rw [called_fired hcalls, Multiset.mem_add, Multiset.mem_coe] at hx
        rcases hx with hx | hx
        · exact Or.inl hx
        · rw [List.mem_singleton.mp (hsub [t] hx)]
          exact Or.inr ⟨ht.mem, fun hmem => hrest t hmem rfl⟩
      · intro level' b' x hx heq
        obtain rfl := honly x hx.mem heq
        obtain ⟨rfl, -⟩ := hids.holds hx ht
        rw [hnow]
        exact hle
      · rw [hpend, Multiset.filter_cons_of_pos (p := fun x : Timer => x.handle = t.handle) _ rfl,
          Multiset.filter_eq_nil.mpr hrest]
        rfl
      · rw [hpend, Multiset.filter_cons_of_neg (p := fun x : Timer => x.handle ≠ t.handle) _
          (not_not.mpr rfl), Multiset.filter_eq_self.mpr hrest]
      · exact called_fired hcalls
    · refine ⟨hv, hid, hpend.le, hsame hcalls, ?_⟩
      by_cases hany : ∃ t ∈ rt.pending, t.handle = handle
      · obtain ⟨t, ht, hh⟩ := hany
        obtain ⟨level, w, b, l, hw, hb, hl⟩ := mem_pending.mp ht
        refine Or.inr ⟨?_, hpend, t, ht, hh⟩
        intro hfind
        have hle := hfind level b t ⟨w, l, hw, hb, hl⟩ hh
        rw [hnow] at hle
        exact hmiss level b t ⟨w, l, hw, hb, hl⟩ hh hle
      · exact Or.inl (hnothing (fun t ht hh => hany ⟨t, ht, hh⟩) hpend hcalls)

/-- A timer was made, and was stored or called. -/
theorem UsersSound.made (h : UsersSound n start k s) (hgiven : k < 2 ^ 64) {t : Timer}
    (hv : Valid n rt') (hid : t.id = s.rt.nextTimerId) (hfit : t.expiryTime < 2 ^ 64)
    (hnext : rt'.nextTimerId = u64 (s.rt.nextTimerId + 1))
    (hpend : rt'.pending = t ::ₘ s.rt.pending ∧ rt'.called = s.rt.called ∨
      rt'.pending = s.rt.pending ∧ rt'.called = s.rt.called + {t}) :
    UsersSound n start (k + 1) { rt := rt', handles := s.handles ++ [t.handle] } := by
  -- the new id is that of no timer and of no handle
  have hfresh : ∀ x ∈ s.rt.pending, x.id ≠ t.id := by
    intro x hx
    rw [hid]
    exact h.ids.next_fresh hgiven hx
  have hmem : ∀ x ∈ rt'.pending, x = t ∨ x ∈ s.rt.pending := by
    intro x hx
    rcases hpend with ⟨hpend, -⟩ | ⟨hpend, -⟩
    · rwa [hpend, Multiset.mem_cons] at hx
    · rw [hpend] at hx
      exact Or.inr hx
  constructor
  · exact hv
  · exact h.time
  · rcases hpend with ⟨hpend, -⟩ | ⟨hpend, -⟩
    · rw [TimerRuntime.Distinct, hpend, Multiset.map_cons, Multiset.nodup_cons]
      refine ⟨?_, h.distinct⟩
      intro hx
      obtain ⟨x, hx, heq⟩ := Multiset.mem_map.mp hx
      exact hfresh x hx heq
    · rw [TimerRuntime.Distinct, hpend]
      exact h.distinct
  · refine h.ids.given hnext ?_
    intro x hx
    rcases hmem x hx with rfl | hx
    · exact Or.inr hid
    · exact Or.inl hx
  · intro x hx
    have hnew : t ∉ s.rt.pending := fun ht => hfresh t ht rfl
    rcases hpend with ⟨hpend, hcalled⟩ | ⟨hpend, hcalled⟩
    · rw [show TimerRuntime.called _ = _ from hcalled] at hx
      obtain ⟨hout, j, hj, hidj⟩ := h.called x hx
      refine ⟨?_, j, by omega, hidj⟩
      rw [show TimerRuntime.pending _ = _ from hpend, Multiset.mem_cons]
      rintro (rfl | hx')
      · -- the id was given before
        exact absurd hidj (by rw [hid, h.ids.next]; exact u64_add_ne hgiven hj)
      · exact hout hx'
    · rw [show TimerRuntime.called _ = _ from hcalled, Multiset.mem_add, Multiset.mem_singleton] at hx
      rw [show TimerRuntime.pending _ = _ from hpend]
      rcases hx with hx | rfl
      · obtain ⟨hout, j, hj, hidj⟩ := h.called x hx
        exact ⟨hout, j, by omega, hidj⟩
      · exact ⟨hnew, k, Nat.lt_succ_self k, hid.trans h.ids.next⟩
  · rw [List.length_append]
    exact Nat.succ_le_succ h.given
  · intro handle hhandle
    rcases List.mem_append.mp hhandle with hold | hnew
    · rcases h.handles handle hold with hzero | ⟨hfit', ⟨j, hj, hidj⟩, hown⟩
      · exact Or.inl hzero
      · refine Or.inr ⟨hfit', ⟨j, by omega, hidj⟩, ?_⟩
        intro x hx heq
        rcases hmem x hx with rfl | hx
        · exfalso
          rw [hid, hidj, h.ids.next] at heq
          exact u64_add_ne hgiven hj heq
        · exact hown x hx heq
    · rw [List.mem_singleton.mp hnew]
      refine Or.inr ⟨hfit, ⟨k, Nat.lt_succ_self k, hid.trans h.ids.next⟩, ?_⟩
      intro x hx heq
      rcases hmem x hx with rfl | hx
      · rfl
      · exact absurd heq (hfresh x hx)

/-- Timers were taken out, and no id was given. -/
theorem UsersSound.removed {n' : Nat} (h : UsersSound n start k s) (hv : Valid n' rt')
    (hn : n' < wheelSpan) (hnext : rt'.nextTimerId = s.rt.nextTimerId)
    (hle : rt'.pending ≤ s.rt.pending) (hcalled : CalledFrom s.rt rt') :
    UsersSound n' start k { s with rt := rt' } where
  valid := hv
  time := hn
  distinct := h.distinct.mono hle
  ids := h.ids.same hnext (Multiset.subset_of_le hle)
  called t ht := by
    rcases hcalled t ht with ht | ⟨ht, hout⟩
    · obtain ⟨hout, hid⟩ := h.called t ht
      exact ⟨fun ht' => hout (Multiset.subset_of_le hle ht'), hid⟩
    · exact ⟨hout, h.ids.stored t ht⟩
  given := h.given
  handles handle hhandle := (h.handles handle hhandle).removed (Multiset.subset_of_le hle)

/-- An operation keeps what is true of the users, and does what the docket does exactly where who
cancels a timer finds it. -/
structure UseSpec (start k : Nat) (s : TimerUsers) (o : TimerUse) (s' : TimerUsers) : Prop where
  sound : ∃ n' k', k ≤ k' ∧ UsersSound n' start k' s'
  docket : s'.rt.agenda = docketAfter s.rt.agenda (docketOp s o) ↔ FindsTimer s o
  added : ∀ op ∈ docketOp s o, ∀ t ∈ op.added, t.id = s.rt.nextTimerId

theorem add_spec (h : UsersSound n start k s) (hlen : s.handles.length < 2 ^ 64) {delay : UInt64}
    {handler data : Nat} (hstep : timerUse s (.add delay handler data) = .ok s') :
    UseSpec start k s (.add delay handler data) s' := by
  have hnow := h.valid.now_eq
  obtain ⟨⟨rt, handle⟩, hadd, hstep⟩ := bind_eq_ok.mp hstep
  cases hstep
  by_cases hd : delay.toNat = 0
  · -- no timer is made
    rw [runtimeAddTimer_zero hd] at hadd
    cases hadd
    have hv : Valid n (s.rt.call (.direct handler data)) := ⟨h.valid.count, h.valid.wheel⟩
    have hcalled : (s.rt.call (.direct handler data)).called = s.rt.called := by
      rw [called_append (show _ = s.rt.calls ++ [.direct handler data] from rfl)]
      exact add_zero _
    have hnone : docketOp s (.add delay handler data) = [] := by
      simp only [docketOp, addedBy, runtimeAddTimer_zero hd, if_pos hd]
      rfl
    refine ⟨⟨n, k, le_rfl, hv, h.time, h.distinct, ⟨h.ids.next, h.ids.stored⟩, ?_, ?_, ?_⟩, ?_, ?_⟩
    · intro t ht
      rw [show TimerRuntime.called _ = _ from hcalled] at ht
      exact h.called t ht
    · rw [List.length_append]
      exact Nat.le_add_right_of_le h.given
    · intro handle hhandle
      rcases List.mem_append.mp hhandle with hold | hnew
      · exact (h.handles handle hold).removed (Multiset.Subset.refl _)
      · rw [List.mem_singleton.mp hnew]
        exact Or.inl rfl
    · rw [hnone]
      exact ⟨fun _ => trivial, fun _ => agenda_eq rfl rfl hcalled⟩
    · rw [hnone]
      intro op hop
      cases hop
  · have hpos := Nat.pos_of_ne_zero hd
    have hgiven : k < 2 ^ 64 := Nat.lt_of_le_of_lt h.given hlen
    have hfit64 : (newTimer n s.rt delay handler data).expiryTime < 2 ^ 64 :=
      Nat.mod_lt _ (by decide)
    have hadded : ∀ ops : List (Docket.Op Timer TimerHandle),
        ops = [.add (newTimer n s.rt delay handler data)] →
        ∀ op ∈ ops, ∀ t ∈ op.added, t.id = s.rt.nextTimerId := by
      rintro _ rfl op hop t ht
      rw [List.mem_singleton.mp hop] at ht
      rw [Multiset.mem_singleton.mp ht]
      rfl
    by_cases hfit : n / wheelRes (findWheel delay.toNat) * wheelRes (findWheel delay.toNat)
        + delay.toNat < 2 ^ 64
    · -- the timer is stored
      obtain ⟨rt₁, hok, hv, hpend, hcalls, -, hid, -⟩ :=
        runtimeAddTimer_stored h.valid hpos handler data hfit
      have hlate : n < (newTimer n s.rt delay handler data).expiryTime := newTimer_late hpos hfit
      have hone : docketOp s (.add delay handler data) =
          [.add (newTimer n s.rt delay handler data)] := by
        rw [docketOp, addedBy_eq hpos hok]
        rfl
      rw [hok] at hadd
      cases hadd
      have hcalled : rt.called = s.rt.called := by
        unfold TimerRuntime.called
        rw [hcalls]
      refine ⟨⟨n, k + 1, Nat.le_succ k, h.made hgiven hv rfl hfit64 hid (Or.inl ⟨hpend, hcalled⟩)⟩, ?_,
        hadded _ hone⟩
      rw [hone]
      refine ⟨fun _ => trivial, fun _ => ?_⟩
      rw [docketAfter, List.foldl_cons, List.foldl_nil, Lib.Docket.step,
        if_pos (show s.rt.agenda.now < _ by rw [show s.rt.agenda.now = n from hnow]; exact hlate)]
      exact agenda_eq (hv.now_eq.trans hnow.symm) hpend hcalled
    · -- the expiry time wraps, and the handler is called at once
      obtain ⟨rt₁, hok, hv, hpend, hcalls, hid⟩ :=
        runtimeAddTimer_wrapped h.valid h.time hpos handler data hfit
      have hone : docketOp s (.add delay handler data) =
          [.add (newTimer n s.rt delay handler data)] := by
        rw [docketOp, addedBy_eq hpos hok]
        rfl
      rw [hok] at hadd
      cases hadd
      have hearly : (newTimer n s.rt delay handler data).expiryTime ≤ n := by
        have hlt : delay.toNat < 2 ^ 64 := delay.toNat_lt
        have hle := Nat.div_mul_le_self n (wheelRes (findWheel delay.toNat))
        have htime := h.time
        have hspan := wheelSpan_eq
        show u64 _ ≤ n
        unfold u64
        omega
      have hfired : rt.calls = s.rt.calls ++ [newTimer n s.rt delay handler data].map .timer := hcalls
      have hcalled : rt.called = s.rt.called + {newTimer n s.rt delay handler data} :=
        called_fired hfired
      refine ⟨⟨n, k + 1, Nat.le_succ k, h.made hgiven hv rfl hfit64 hid (Or.inr ⟨hpend, hcalled⟩)⟩, ?_,
        hadded _ hone⟩
      rw [hone]
      refine ⟨fun _ => trivial, fun _ => ?_⟩
      rw [docketAfter, List.foldl_cons, List.foldl_nil, Lib.Docket.step,
        if_neg (show ¬ s.rt.agenda.now < _ by rw [show s.rt.agenda.now = n from hnow]; omega)]
      refine agenda_eq (hv.now_eq.trans hnow.symm) hpend ?_
      rw [hcalled, add_comm]
      rfl

theorem tick_spec (h : UsersSound n start k s) (hstep : timerUse s .tick = .ok s') :
    UseSpec start k s .tick s' := by
  have hnow := h.valid.now_eq
  obtain ⟨rt, htick, hstep⟩ := bind_eq_ok.mp hstep
  cases hstep
  obtain ⟨hn', -⟩ := timerStep_valid (o := .tick) h.valid h.time htick
  obtain ⟨rt₁, fired, htick', hv, hcalls, hid, hpend, hfired⟩ := tick_pending h.valid hn'
  obtain rfl : rt₁ = rt := Except.ok.inj (htick'.symm.trans htick)
  have hcalled : CalledFrom s.rt rt₁ := by
    intro t ht
    rw [called_fired hcalls, Multiset.mem_add, hfired, Multiset.mem_filter] at ht
    rcases ht with ht | ⟨ht, hdue⟩
    · exact Or.inl ht
    · refine Or.inr ⟨ht, ?_⟩
      rw [hpend, Multiset.mem_filter]
      exact fun hmem => hmem.2 hdue
  refine ⟨⟨n + 1, k, le_rfl,
    h.removed hv hn' hid (by rw [hpend]; exact Multiset.filter_le _ _) hcalled⟩,
    ?_, ?_⟩
  swap
  · rintro op hop t ht
    rw [List.mem_singleton.mp hop] at ht
    cases ht
  refine ⟨fun _ => trivial, fun _ => agenda_eq ?_ ?_ ?_⟩
  · show rt₁.now = s.rt.now + 1
    rw [hv.now_eq, hnow]
  · show rt₁.pending = s.rt.pending.filter fun t => t.expiryTime ≠ s.rt.now + 1
    rw [hpend, hnow]
  · show rt₁.called = s.rt.called + s.rt.pending.filter fun t => t.expiryTime = s.rt.now + 1
    rw [called_fired hcalls, hfired, hnow]

/-- Where the docket takes out a timer that stays stored, the two differ. -/
theorem docket_misses {handle : TimerHandle} {t : Timer} (hpend : rt'.pending = rt.pending)
    (ht : t ∈ rt.pending) (hh : t.handle = handle) :
    rt'.pending ≠ rt.pending.filter fun t => t.handle ≠ handle := by
  intro heq
  rw [← hpend, heq, Multiset.mem_filter] at ht
  exact ht.2 hh

theorem abort_spec (h : UsersSound n start k s) {i : Nat} (hstep : timerUse s (.abort i) = .ok s') :
    UseSpec start k s (.abort i) s' := by
  rw [timerUse] at hstep
  cases hget : s.handles[i]? with
  | none =>
    rw [hget] at hstep
    cases hstep
  | some handle =>
    rw [hget] at hstep
    obtain ⟨rt, habort, hstep⟩ := bind_eq_ok.mp hstep
    cases hstep
    obtain ⟨hv, hid, hle, hfrom, hcases⟩ := remove_docket (fun _ => []) h.valid h.time h.distinct
      (h.handles handle (List.mem_of_getElem? hget))
      (fun l calls => by rw [vecRemoveIf_abort, List.map_nil, List.append_nil]) rfl
      (fun l => List.nil_subset l) habort
    have hone : docketOp s (.abort i) = [.withdraw handle] := by
      rw [docketOp, hget]
      rfl
    have hfinds : FindsTimer s (.abort i) ↔ s.rt.Findable handle := by
      simp [FindsTimer, hget]
    refine ⟨⟨n, k, le_rfl, h.removed hv h.time hid hle hfrom⟩, ?_, ?_⟩
    swap
    · rw [hone]
      rintro op hop t ht
      rw [List.mem_singleton.mp hop] at ht
      cases ht
    rw [hone, hfinds]
    rcases hcases with ⟨hfind, found, -, hpend, hcalled⟩ | ⟨hmiss, hpend, t, ht, hh⟩
    · refine ⟨fun _ => hfind, fun _ => agenda_eq ?_ hpend ?_⟩
      · exact hv.now_eq.trans h.valid.now_eq.symm
      · rw [hcalled]
        exact add_zero _
    · refine ⟨fun heq => ?_, fun hfind => absurd hfind hmiss⟩
      exact absurd (congrArg Agenda.pending heq) (docket_misses hpend ht hh)

theorem fire_spec (h : UsersSound n start k s) {i : Nat} (hstep : timerUse s (.fire i) = .ok s') :
    UseSpec start k s (.fire i) s' := by
  rw [timerUse] at hstep
  cases hget : s.handles[i]? with
  | none =>
    rw [hget] at hstep
    cases hstep
  | some handle =>
    rw [hget] at hstep
    obtain ⟨rt, hfire, hstep⟩ := bind_eq_ok.mp hstep
    cases hstep
    obtain ⟨hv, hid, hle, hfrom, hcases⟩ := remove_docket id h.valid h.time h.distinct
      (h.handles handle (List.mem_of_getElem? hget))
      (fun l calls => vecRemoveIf_fire handle l calls) rfl
      (fun l => List.Subset.refl l) hfire
    have hone : docketOp s (.fire i) = [.advance handle] := by
      rw [docketOp, hget]
      rfl
    have hfinds : FindsTimer s (.fire i) ↔ s.rt.Findable handle := by
      simp [FindsTimer, hget]
    refine ⟨⟨n, k, le_rfl, h.removed hv h.time hid hle hfrom⟩, ?_, ?_⟩
    swap
    · rw [hone]
      rintro op hop t ht
      rw [List.mem_singleton.mp hop] at ht
      cases ht
    rw [hone, hfinds]
    rcases hcases with ⟨hfind, found, hfound, hpend, hcalled⟩ | ⟨hmiss, hpend, t, ht, hh⟩
    · refine ⟨fun _ => hfind, fun _ => agenda_eq ?_ hpend ?_⟩
      · exact hv.now_eq.trans h.valid.now_eq.symm
      · rw [hcalled]
        show _ + (found : Multiset Timer) = _
        rw [hfound]
        rfl
    · refine ⟨fun heq => ?_, fun hfind => absurd hfind hmiss⟩
      exact absurd (congrArg Agenda.pending heq) (docket_misses hpend ht hh)

/-- **One operation.** -/
theorem timerUse_spec (h : UsersSound n start k s) (hlen : s.handles.length < 2 ^ 64) {o : TimerUse}
    (hstep : timerUse s o = .ok s') : UseSpec start k s o s' := by
  cases o with
  | add delay handler data => exact add_spec h hlen hstep
  | tick => exact tick_spec h hstep
  | abort i => exact abort_spec h hstep
  | fire i => exact fire_spec h hstep

/-! ## Runs -/

theorem usersSound_start (nextTimerId : UInt64) :
    UsersSound 0 nextTimerId.toNat 0 (timerUsers nextTimerId) := by
  refine ⟨valid_setup nextTimerId, by decide, ?_, idsFrom_setup nextTimerId, ?_, Nat.zero_le _, ?_⟩
  · rw [TimerRuntime.Distinct, show (timerUsers nextTimerId).rt = wheelSetup nextTimerId from rfl,
      pending_setup]
    exact Multiset.nodup_zero
  · intro t ht
    exact absurd ht (Multiset.notMem_zero t)
  · intro handle hhandle
    cases hhandle

/-- Fewer than `2 ^ 64` handles were returned. -/
def FewHandles (s : TimerUsers) (_ : TimerUse) : Prop := s.handles.length < 2 ^ 64

/-- An operation returns one handle at most. -/
theorem timerUse_handles {o : TimerUse} (hstep : timerUse s o = .ok s') :
    s'.handles.length ≤ s.handles.length + 1 := by
  cases o with
  | add delay handler data =>
    obtain ⟨⟨rt, handle⟩, -, hstep⟩ := bind_eq_ok.mp hstep
    cases hstep
    rw [List.length_append]
    exact le_rfl
  | tick =>
    obtain ⟨rt, -, hstep⟩ := bind_eq_ok.mp hstep
    cases hstep
    exact Nat.le_succ _
  | abort i =>
    rw [timerUse] at hstep
    split at hstep
    · obtain ⟨rt, -, hstep⟩ := bind_eq_ok.mp hstep
      cases hstep
      exact Nat.le_succ _
    · cases hstep
  | fire i =>
    rw [timerUse] at hstep
    split at hstep
    · obtain ⟨rt, -, hstep⟩ := bind_eq_ok.mp hstep
      cases hstep
      exact Nat.le_succ _
    · cases hstep

theorem fewHandles {os : List TimerUse} (hlen : s.handles.length + os.length ≤ 2 ^ 64) :
    Lib.Along timerUse FewHandles s os := by
  induction os generalizing s with
  | nil => trivial
  | cons o os ih =>
    rw [List.length_cons] at hlen
    refine ⟨show s.handles.length < 2 ^ 64 by omega, ?_⟩
    intro s' hstep
    have hhandles := timerUse_handles hstep
    exact ih (by omega)

theorem docketAfter_append (a : Agenda Timer) (os os' : List (Docket.Op Timer TimerHandle)) :
    docketAfter a (os ++ os') = docketAfter (docketAfter a os) os' := List.foldl_append

theorem emitted_step {o : TimerUse} (hstep : timerUse s o = .ok s') :
    Lib.emitted timerUse docketOp s [o] = docketOp s o := by
  simp [Lib.emitted, hstep]

/-- **The wheels carry out a docket**: the time, the timers that are stored and those that were called
are at all times what the docket says, exactly when every timer that is cancelled by its handle lies
in a wheel that is not coarser than the delay that remains. -/
theorem timers_keep_docket_iff (nextTimerId : UInt64) (os : List TimerUse) (hlen : os.length ≤ 2 ^ 64)
    (hrun : Lib.run timerUse (timerUsers nextTimerId) os = .ok s) :
    (∀ os₁ os₂ s₁, os = os₁ ++ os₂ → Lib.run timerUse (timerUsers nextTimerId) os₁ = .ok s₁ →
        s₁.rt.agenda =
          docketAfter ⟨0, 0, 0⟩ (Lib.emitted timerUse docketOp (timerUsers nextTimerId) os₁)) ↔
      Lib.Along timerUse FindsTimer (timerUsers nextTimerId) os := by
  have hfew : Lib.Along timerUse FewHandles (timerUsers nextTimerId) os :=
    fewHandles (by rw [show (timerUsers nextTimerId).handles.length = 0 from rfl]; omega)
  refine Lib.along_iff_prefixes (Q := FewHandles)
    (I := fun past s => (∃ n k, UsersSound n nextTimerId.toNat k s) ∧
      Lib.run timerUse (timerUsers nextTimerId) past = .ok s)
    (L := fun past s => s.rt.agenda =
      docketAfter ⟨0, 0, 0⟩ (Lib.emitted timerUse docketOp (timerUsers nextTimerId) past)) [] ?_ ?_
    ⟨⟨0, 0, usersSound_start nextTimerId⟩, rfl⟩ ?_ hfew hrun
  · rintro past s o s' ⟨⟨n, k, h⟩, hpast⟩ - - hlt hstep
    obtain ⟨n', k', -, h'⟩ := (timerUse_spec h hlt hstep).sound
    refine ⟨⟨n', k', h'⟩, ?_⟩
    exact Lib.run_append.mpr ⟨s, hpast, by rw [Lib.run_cons_ok hstep]; rfl⟩
  · rintro past s o s' ⟨⟨n, k, h⟩, hpast⟩ hL hlt hstep
    have hdocket := (timerUse_spec h hlt hstep).docket
    rw [hL] at hdocket
    rw [Lib.emitted_append hpast, docketAfter_append, emitted_step hstep]
    exact hdocket
  · refine agenda_eq rfl ?_ rfl
    exact pending_setup nextTimerId

/-- A timer for 10 ms that is aborted one tick later is not found: the docket has lost it, the wheels
have not. -/
theorem timers_keep_docket_iff_misses :
    ∃ s, Lib.run timerUse (timerUsers 0) [.add 10 7 8, .tick, .abort 0] = .ok s ∧
      s.rt.stored = [⟨0, 10, 7, 8⟩] ∧
      ¬ Lib.Along timerUse FindsTimer (timerUsers 0) [.add 10 7 8, .tick, .abort 0] := by
  obtain ⟨s, hrun, hstored⟩ :
      ∃ s, Lib.run timerUse (timerUsers 0) [.add 10 7 8, .tick, .abort 0] = .ok s ∧
      s.rt.stored = [⟨0, 10, 7, 8⟩] := Lib.exists_ok_of_decide (by decide +kernel)
  refine ⟨s, hrun, hstored, ?_⟩
  intro hfinds
  have hdocket := (timers_keep_docket_iff 0 _ (by decide) hrun).mpr hfinds _ [] s
    (List.append_nil _).symm hrun
  have hpending := congrArg (fun a => Multiset.card a.pending) hdocket
  have hstays : Multiset.card s.rt.pending = 1 := by
    rw [TimerRuntime.pending, hstored]
    rfl
  have hlost : Multiset.card (docketAfter ⟨0, 0, 0⟩ (Lib.emitted timerUse docketOp (timerUsers 0)
      [.add 10 7 8, .tick, .abort 0])).pending = 0 := by decide +kernel
  exact absurd (hstays.symm.trans (hpending.trans hlost)) (by decide)

/-- **What becomes of a stored timer** is decided by the first of its time, an abort and a fire by its
handle: its handler is called once, or never. -/
theorem timer_meets_fate (nextTimerId : UInt64) (os₁ os₂ : List TimerUse) {s₁ s₂ : TimerUsers}
    (hlen : (os₁ ++ os₂).length ≤ 2 ^ 64)
    (h₁ : Lib.run timerUse (timerUsers nextTimerId) os₁ = .ok s₁)
    (h₂ : Lib.run timerUse s₁ os₂ = .ok s₂)
    (hfinds : Lib.Along timerUse FindsTimer s₁ os₂) {t : Timer} (ht : t ∈ s₁.rt.pending) :
    s₂.rt.pending.count t = (if Lib.Docket.fate Timer.expiryTime Timer.handle t s₁.rt.now
        (Lib.emitted timerUse docketOp s₁ os₂) = .pending then 1 else 0) ∧
      s₂.rt.called.count t = if Lib.Docket.fate Timer.expiryTime Timer.handle t s₁.rt.now
        (Lib.emitted timerUse docketOp s₁ os₂) = .done then 1 else 0 := by
  have hfew : Lib.Along timerUse FewHandles (timerUsers nextTimerId) (os₁ ++ os₂) :=
    fewHandles (by rw [show (timerUsers nextTimerId).handles.length = 0 from rfl]; omega)
  obtain ⟨hfew₁, hfew₂⟩ := Lib.along_append hfew
  obtain ⟨n, k, hs₁⟩ : ∃ n k, UsersSound n nextTimerId.toNat k s₁ := by
    refine Lib.run_invariant (I := fun s => ∃ n k, UsersSound n nextTimerId.toNat k s) ?_
      ⟨0, 0, usersSound_start nextTimerId⟩ hfew₁ h₁
    rintro s o s' ⟨n, k, h⟩ hlt hstep
    obtain ⟨n', k', -, h'⟩ := (timerUse_spec h hlt hstep).sound
    exact ⟨n', k', h'⟩
  -- the timer is not made again
  have hrun : (∃ n k, UsersSound n nextTimerId.toNat k s₂ ∧
        ∃ j < k, t.id = u64 (nextTimerId.toNat + j)) ∧
      (∀ op ∈ [] ++ Lib.emitted timerUse docketOp s₁ os₂, t ∉ op.added) ∧
      s₂.rt.agenda = docketAfter s₁.rt.agenda ([] ++ Lib.emitted timerUse docketOp s₁ os₂) := by
    refine Lib.run_emits (I := fun past s => (∃ n k, UsersSound n nextTimerId.toNat k s ∧
        ∃ j < k, t.id = u64 (nextTimerId.toNat + j)) ∧ (∀ op ∈ past, t ∉ op.added) ∧
      s.rt.agenda = docketAfter s₁.rt.agenda past) [] ?_ ⟨⟨n, k, hs₁, hs₁.ids.stored t ht⟩, ?_, rfl⟩
      ((hfew₂ s₁ h₁).and hfinds) h₂
    · rintro past s o s' ⟨⟨n, k, h, j, hj, hid⟩, hpast, hdocket⟩ ⟨hlt, hfind⟩ hstep
      have hspec := timerUse_spec h hlt hstep
      obtain ⟨n', k', hk, h'⟩ := hspec.sound
      refine ⟨⟨n', k', h', j, by omega, hid⟩, ?_, ?_⟩
      · intro op hop hadd
        rcases List.mem_append.mp hop with hop | hop
        · exact hpast op hop hadd
        · have hnext := hspec.added op hop t hadd
          have hgiven : k < 2 ^ 64 := Nat.lt_of_le_of_lt h.given hlt
          rw [hid, h.ids.next] at hnext
          exact u64_add_ne hgiven hj hnext.symm
      · rw [docketAfter_append, ← hdocket]
        exact hspec.docket.mpr hfind
    · intro op hop
      cases hop
  obtain ⟨-, hadds, hdocket⟩ := hrun
  rw [List.nil_append] at hadds hdocket
  have hcount : s₁.rt.agenda.pending.count t = 1 :=
    Multiset.count_eq_one_of_mem hs₁.distinct.nodup ht
  have hcalled : s₁.rt.agenda.done.count t = 0 :=
    Multiset.count_eq_zero.mpr fun hmem => (hs₁.called t hmem).1 ht
  obtain ⟨hpending, hdone⟩ := Lib.Docket.foldl_count Timer.expiryTime Timer.handle s₁.rt.agenda hadds
  rw [hcount] at hpending hdone
  rw [hcalled, Nat.zero_add] at hdone
  have hpending₂ := congrArg (fun a => a.pending.count t) hdocket
  have hcalled₂ := congrArg (fun a => a.done.count t) hdocket
  exact ⟨hpending₂.trans hpending, hcalled₂.trans hdone⟩

/-- A timer for 5 ms that is fired after one: it is called once. -/
theorem timer_meets_fate_fired :
    ∃ s₁ s₂, Lib.run timerUse (timerUsers 0) [.add 5 7 8] = .ok s₁ ∧
      Lib.run timerUse s₁ [.tick, .fire 0, .fire 0, .tick] = .ok s₂ ∧
      s₂.rt.pending.count ⟨0, 5, 7, 8⟩ = 0 ∧ s₂.rt.called.count ⟨0, 5, 7, 8⟩ = 1 := by
  obtain ⟨s₁, h₁, hstored, hfinds, hfate⟩ :
      ∃ s₁, Lib.run timerUse (timerUsers 0) [.add 5 7 8] = .ok s₁ ∧
      s₁.rt.stored = [⟨0, 5, 7, 8⟩] ∧
      Lib.Along timerUse FindsTimer s₁ [.tick, .fire 0, .fire 0, .tick] ∧
      Lib.Docket.fate Timer.expiryTime Timer.handle ⟨0, 5, 7, 8⟩ s₁.rt.now
        (Lib.emitted timerUse docketOp s₁ [.tick, .fire 0, .fire 0, .tick]) = .done :=
    Lib.exists_ok_of_decide (by decide +kernel)
  obtain ⟨s₂, hrun, -⟩ : ∃ s₂, Lib.run timerUse (timerUsers 0)
      ([.add 5 7 8] ++ [.tick, .fire 0, .fire 0, .tick]) = .ok s₂ ∧ s₂.rt.now = 2 :=
    Lib.exists_ok_of_decide (by decide +kernel)
  obtain ⟨s, h, h₂⟩ := Lib.run_append.mp hrun
  obtain rfl : s₁ = s := Except.ok.inj (h₁.symm.trans h)
  have ht : ⟨0, 5, 7, 8⟩ ∈ s₁.rt.pending := by
    rw [TimerRuntime.pending, hstored]
    exact Multiset.mem_singleton_self _
  obtain ⟨hpending, hcalled⟩ := timer_meets_fate 0 [.add 5 7 8] _ (by decide) h₁ h₂ hfinds ht
  rw [hfate] at hpending hcalled
  exact ⟨s₁, s₂, h₁, h₂, hpending, hcalled⟩

end Taskio
