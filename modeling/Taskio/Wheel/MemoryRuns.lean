import Taskio.Lib.Outcome
import Taskio.Lib.Slices
import Taskio.Wheel.Memory

/-!
# The wheels in memory refine the wheels

Each bucket of `Taskio/Wheel/Basic.lean` is a list; here it is a vector of `buckets`, in a buffer that
no other bucket has.

* `Stands` — the relation between the two states. While a bucket is visited, its timers are in the local
  vector
* `timerMemoryStep_alike` — an operation ends as it does on the lists
-/

namespace Taskio

open Lib (Alike)

/-! ## The relation -/

/-- Where the buckets of a wheel start. -/
def bucketsStart (level : Nat) : Nat := (lengths.take level).sum

/-- The buckets of all wheels one behind the other, and the local vector. -/
def TimerRuntime.lists (rt : TimerRuntime) (timers : List Timer) (v : Nat) : Option (List Timer) :=
  ((rt.wheels.map (·.timerBuckets)).flatten ++ [timers])[v]?

/-- The wheel, with its buckets in memory. -/
def WheelTimer.inMemory (w : WheelTimer) (start : Nat) : WheelMemory where
  tick := w.tick
  id := w.id
  resolution := w.resolution
  wheelSize := w.wheelSize
  timerBuckets := some start
  loopHandler := w.loopHandler
  expiryHandler := w.expiryHandler

/-- The vectors have the timers of the buckets and `timers`, no buffer is live but theirs, and all
else is the same. At most `bound` timers are in the buckets. -/
structure Stands (size : ℕ+) (bound : Nat) (vec : Vec) (timers : List Timer) (s : TimerMemory)
    (rt : TimerRuntime) : Prop where
  lens : rt.wheels.map (·.timerBuckets.length) = lengths
  sizes : ∀ (k : Nat) (w : WheelTimer), rt.wheels[k]? = some w → w.wheelSize = w.timerBuckets.length
  wheels : ∀ k : Nat, s.wheels[k]? = rt.wheels[k]?.map (·.inMemory (bucketsStart k))
  refines : VecsRefine (rt.lists timers) s.vecs
  fits : s.vecs.Fits size
  tidy : s.vecs.Tidy
  moved : s.vecs.vecs timersLocal = some vec
  few : rt.stored.length ≤ bound
  timerLen : s.timerLen = rt.timerLen
  armed : s.armed = rt.armed
  nextTimerId : s.nextTimerId = rt.nextTimerId
  calls : s.calls = rt.calls

/-- Between two operations the local vector is not in use. -/
def Rests (size : ℕ+) (bound : Nat) (s : TimerMemory) (rt : TimerRuntime) : Prop :=
  Stands size bound Vec.init [] s rt

variable {size : ℕ+} {addr : Nat → Nat} {bound limit : Nat} {vec : Vec} {timers : List Timer}
  {s : TimerMemory} {rt : TimerRuntime}

/-! ## Buckets -/

theorem Stands.start (h : Stands size bound vec timers s rt) (k : Nat) :
    Lib.sliceStart (rt.wheels.map (·.timerBuckets)) k = bucketsStart k := by
  have hlens : (rt.wheels.map (·.timerBuckets)).map List.length = lengths := by
    rw [List.map_map]
    exact h.lens
  rw [Lib.sliceStart, hlens, bucketsStart]

theorem Stands.total (h : Stands size bound vec timers s rt) :
    (rt.wheels.map (·.timerBuckets)).flatten.length = timersLocal := by
  rw [List.length_flatten, List.map_map]
  exact congrArg List.sum h.lens

/-- A bucket of a wheel. -/
theorem Stands.bucket (h : Stands size bound vec timers s rt) {k b : Nat} {w : WheelTimer}
    (hw : rt.wheels[k]? = some w) (hb : b < w.wheelSize) :
    ∃ l, w.timerBuckets[b]? = some l ∧ w.bucket b = .ok l ∧
      rt.lists timers (bucketsStart k + b) = some l ∧ bucketsStart k + b < timersLocal := by
  have hlt : b < w.timerBuckets.length := h.sizes k w hw ▸ hb
  have hk : (rt.wheels.map (·.timerBuckets))[k]? = some w.timerBuckets := by
    rw [List.getElem?_map, hw]
    rfl
  have hget : w.timerBuckets[b]? = some w.timerBuckets[b] := List.getElem?_eq_getElem hlt
  have hslice := Lib.getElem?_slice hk hlt
  rw [h.start, hget] at hslice
  have hin := (List.getElem?_eq_some_iff.mp hslice).1
  refine ⟨w.timerBuckets[b], hget, ?_, ?_, h.total ▸ hin⟩
  · rw [WheelTimer.bucket, hget]
  · rw [TimerRuntime.lists, List.getElem?_append_left hin, hslice]

theorem update_getElem? {α : Type} (l : List α) {i : Nat} (hi : i < l.length) (x : α) :
    Function.update (fun v => l[v]?) i (some x) = fun v => (l.set i x)[v]? := by
  funext v
  by_cases hv : v = i
  · subst hv
    rw [Function.update_self, List.getElem?_set_self hi]
  · rw [Function.update_of_ne hv, List.getElem?_set_ne (Ne.symm hv)]

/-- A bucket gets other timers. -/
theorem Stands.lists_setBucket (h : Stands size bound vec timers s rt) {k b : Nat} {w : WheelTimer}
    (hw : rt.wheels[k]? = some w) (hb : b < w.wheelSize) (l timers' : List Timer) :
    Function.update (rt.lists timers') (bucketsStart k + b) (some l) =
      (rt.modifyWheel k (·.setBucket b l)).lists timers' := by
  have hlt : b < w.timerBuckets.length := h.sizes k w hw ▸ hb
  have hk : (rt.wheels.map (·.timerBuckets))[k]? = some w.timerBuckets := by
    rw [List.getElem?_map, hw]
    rfl
  have hset : (rt.modifyWheel k (·.setBucket b l)).wheels.map (·.timerBuckets) =
      (rt.wheels.map (·.timerBuckets)).set k (w.timerBuckets.set b l) := by
    rw [modifyWheel_eq_set hw, List.map_set]
    rfl
  have hin : bucketsStart k + b < (rt.wheels.map (·.timerBuckets)).flatten.length := by
    rw [h.total]
    obtain ⟨-, -, -, -, hin⟩ := h.bucket hw hb
    exact hin
  have hupd := update_getElem? ((rt.wheels.map (·.timerBuckets)).flatten ++ [timers'])
    (i := bucketsStart k + b) (by rw [List.length_append]; omega) l
  rw [List.set_append_left _ _ hin, ← h.start, ← Lib.flatten_set_slice hk hlt, h.start, ← hset]
    at hupd
  exact hupd

/-- The local vector gets other timers. -/
theorem Stands.lists_local (h : Stands size bound vec timers s rt) (l : List Timer) :
    Function.update (rt.lists timers) timersLocal (some l) = rt.lists l := by
  have hupd := update_getElem? ((rt.wheels.map (·.timerBuckets)).flatten ++ [timers])
    (i := timersLocal) (by rw [List.length_append, h.total]; exact Nat.lt_succ_self _) l
  rw [List.set_append_right _ _ (Nat.le_of_eq h.total), h.total, Nat.sub_self] at hupd
  exact hupd

theorem stored_setBucket {k b : Nat} {w : WheelTimer} {old : List Timer}
    (hw : rt.wheels[k]? = some w) (hb : w.timerBuckets[b]? = some old) (l : List Timer) :
    (rt.modifyWheel k (·.setBucket b l)).stored.length + old.length =
      rt.stored.length + l.length := by
  have hcard := congrArg Multiset.card (pending_setBucket hw hb l)
  rwa [Multiset.card_add, Multiset.card_add] at hcard

theorem length_le_stored {k b : Nat} {w : WheelTimer} {l : List Timer}
    (hw : rt.wheels[k]? = some w) (hb : w.timerBuckets[b]? = some l) :
    l.length ≤ rt.stored.length := by
  have hset := stored_setBucket hw hb []
  rw [List.length_nil] at hset
  omega

/-! ## What the functions change -/

/-- A bucket gets other timers, and so does its vector. -/
theorem Stands.store (h : Stands size bound vec timers s rt) {k b n : Nat} {w : WheelTimer}
    {l l' timers' : List Timer} {vec' : Vec} {vecs : VecSystem Timer} (hw : rt.wheels[k]? = some w)
    (hb : b < w.wheelSize) (hl : w.timerBuckets[b]? = some l)
    (hrefines : VecsRefine (Function.update (rt.lists timers') (bucketsStart k + b) (some l')) vecs)
    (hfits : vecs.Fits size) (htidy : vecs.Tidy) (hmoved : vecs.vecs timersLocal = some vec')
    (hlen : l'.length ≤ l.length + n) :
    Stands size (bound + n) vec' timers' { s with vecs := vecs }
      (rt.modifyWheel k (·.setBucket b l')) := by
  have hstored := stored_setBucket hw hl l'
  have hfew := h.few
  have hlist : ∀ j : Nat, (rt.modifyWheel k (·.setBucket b l')).wheels[j]? =
      if k = j then rt.wheels[j]?.map (·.setBucket b l') else rt.wheels[j]? :=
    TimerRuntime.modifyWheel_get _ k
  refine ⟨?_, ?_, ?_, h.lists_setBucket hw hb l' timers' ▸ hrefines, hfits, htidy, hmoved, by omega,
    h.timerLen,
    h.armed, h.nextTimerId, h.calls⟩
  · rw [modifyWheel_eq_set hw, List.map_set, WheelTimer.setBucket, List.length_set]
    have hk : (rt.wheels.map (·.timerBuckets.length))[k]? = some w.timerBuckets.length := by
      rw [List.getElem?_map, hw]
      rfl
    obtain ⟨hlt, hget⟩ := List.getElem?_eq_some_iff.mp hk
    rw [← hget, List.set_getElem_self, h.lens]
  · intro j w' hw'
    rw [hlist] at hw'
    split at hw'
    · obtain ⟨w₀, hw₀, rfl⟩ := Option.map_eq_some_iff.mp hw'
      rw [WheelTimer.setBucket, List.length_set]
      exact h.sizes j w₀ hw₀
    · exact h.sizes j w' hw'
  · intro j
    rw [hlist, h.wheels j]
    split
    · rw [Option.map_map]
      rfl
    · rfl

/-- What is counted on all wheels, and changes no bucket. -/
theorem Stands.modifyWheel (h : Stands size bound vec timers s rt) (level : Nat)
    {f : WheelMemory → WheelMemory} {g : WheelTimer → WheelTimer}
    (hf : ∀ w start, f (w.inMemory start) = (g w).inMemory start)
    (hg : ∀ w, (g w).timerBuckets = w.timerBuckets ∧ (g w).wheelSize = w.wheelSize) :
    Stands size bound vec timers (s.modifyWheel level f) (rt.modifyWheel level g) := by
  have hlist : ∀ j : Nat, (rt.modifyWheel level g).wheels[j]? =
      if level = j then rt.wheels[j]?.map g else rt.wheels[j]? := TimerRuntime.modifyWheel_get _ level
  have hbuckets : ∀ {β : Type} (p : List (List Timer) → β),
      (rt.modifyWheel level g).wheels.map (fun w => p w.timerBuckets) =
        rt.wheels.map fun w => p w.timerBuckets := by
    intro β p
    refine List.ext_getElem? ?_
    intro j
    rw [List.getElem?_map, List.getElem?_map, hlist]
    split
    · rw [Option.map_map]
      exact congrArg (Option.map · _) (funext fun w => congrArg p (hg w).1)
    · rfl
  refine ⟨(hbuckets List.length).trans h.lens, ?_, ?_, ?_, h.fits, h.tidy, h.moved, ?_, h.timerLen,
    h.armed, h.nextTimerId, h.calls⟩
  · intro j w hw
    rw [hlist] at hw
    split at hw
    · obtain ⟨w₀, hw₀, rfl⟩ := Option.map_eq_some_iff.mp hw
      rw [(hg w₀).1, (hg w₀).2]
      exact h.sizes j w₀ hw₀
    · exact h.sizes j w hw
  · intro j
    rw [TimerMemory.modifyWheel, List.getElem?_modify, hlist, h.wheels j]
    split
    · rw [Option.map_map]
      cases rt.wheels[j]? with
      | none => rfl
      | some w => exact congrArg some (hf w _)
    · exact id_map _
  · have hlists : (rt.modifyWheel level g).lists timers = rt.lists timers := by
      funext v
      rw [TimerRuntime.lists, hbuckets fun buckets => buckets]
      rfl
    rw [hlists]
    exact h.refines
  · have hstored : (rt.modifyWheel level g).stored = rt.stored := by
      rw [TimerRuntime.stored, List.flatMap_def, hbuckets List.flatten]
      rfl
    rw [hstored]
    exact h.few

theorem Stands.wheel (h : Stands size bound vec timers s rt) (level : Nat) :
    Alike .noSuchCall (fun m w => rt.wheels[level]? = some w ∧ m = w.inMemory (bucketsStart level))
      (s.wheel level) (rt.wheel level) := by
  rw [TimerMemory.wheel, TimerRuntime.wheel, h.wheels level]
  cases rt.wheels[level]? with
  | none => exact .fails _
  | some w => exact .ends ⟨rfl, rfl⟩

theorem inMemory_fields {m : WheelMemory} {w : WheelTimer} {start : Nat} (hm : m = w.inMemory start) :
    m.tick = w.tick ∧ m.resolution = w.resolution ∧ m.id = w.id ∧ m.wheelSize = w.wheelSize ∧
      m.loopHandler = w.loopHandler ∧ m.expiryHandler = w.expiryHandler ∧
      ∀ i, TimerMemory.bucketAt m i = .ok (start + i) := by
  subst hm
  exact ⟨rfl, rfl, rfl, rfl, rfl, rfl, fun _ => rfl⟩

theorem findBucket_alike (w : WheelTimer) (start expiryTime : Nat) :
    Alike .noSuchCall (fun found index => found = index.map (start + ·) ∧ ∀ i ∈ index, i < w.wheelSize)
      (TimerMemory.findBucket (w.inMemory start) expiryTime) (findBucket w expiryTime) := by
  show Alike _ _
    (if u64 (w.tick * w.resolution) ≥ expiryTime then .ok none
      else if w.resolution = 0 ∨ w.wheelSize = 0 then .error Fault.divisionByZero
      else .ok (some (start +
        u64 (w.tick + (expiryTime - u64 (w.tick * w.resolution)) / w.resolution) % w.wheelSize))) _
  rw [findBucket]
  by_cases hdue : u64 (w.tick * w.resolution) ≥ expiryTime
  · simp only [if_pos hdue]
    exact .ends ⟨rfl, by simp⟩
  · by_cases hzero : w.resolution = 0 ∨ w.wheelSize = 0
    · simp only [if_neg hdue, if_pos hzero]
      exact .fails _
    · simp only [if_neg hdue, if_neg hzero]
      refine .ends ⟨rfl, ?_⟩
      rintro i ⟨⟩
      exact Nat.mod_lt _ (by omega)

/-! ## Appending to a bucket -/

theorem vecStep_pushLast_other {vecs vecs' : VecSystem Timer} {v v' a : Nat} {t : Timer}
    (hstep : vecStep (σ := Unit) size vecs (.pushLast v t a) = .ok vecs') (hv : v' ≠ v) :
    vecs'.vecs v' = vecs.vecs v' := by
  obtain ⟨vec, -, hstep⟩ := bind_eq_ok.mp hstep
  obtain ⟨r, -, hstep⟩ := bind_eq_ok.mp hstep
  cases hstep
  exact Function.update_of_ne hv _ _

/-- A bucket has no more timers than are stored, so it does not grow beyond what 64 bits count. -/
theorem grown_fits {vec : Vec} {m : Buffers Timer} {l : List Timer}
    (hlimit : size * (16 + 2 * limit) < 2 ^ 64) (hholds : vec.Holds m l) (hl : l.length ≤ limit)
    (hfull : vec.capacity ≤ vec.len) : size * vec.grown < 2 ^ 64 := by
  have hlen := hholds.len
  have hgrown : vec.grown ≤ 16 + 2 * limit := by
    rw [Vec.grown]
    split <;> omega
  exact Nat.lt_of_le_of_lt (Nat.mul_le_mul_left _ hgrown) hlimit

theorem Stands.pushLast (h : Stands size bound vec timers s rt)
    (hlimit : size * (16 + 2 * limit) < 2 ^ 64) (hbound : bound ≤ limit) {k b : Nat} {w : WheelTimer}
    {l : List Timer} (hw : rt.wheels[k]? = some w) (hb : b < w.wheelSize)
    (hl : w.timerBuckets[b]? = some l) (t : Timer) :
    Alike .noSuchCall (Stands size (bound + 1) vec timers)
      (s.pushLast size addr (bucketsStart k + b) t)
      (.ok (rt.modifyWheel k (·.setBucket b (l ++ [t])))) := by
  obtain ⟨l', hl', -, hlist, hlt⟩ := h.bucket hw hb
  obtain rfl : l = l' := Option.some.inj (hl.symm.trans hl')
  obtain ⟨v, hv⟩ := Option.ne_none_iff_exists'.mp fun hnone => by
    rw [(h.refines.same _).mpr hnone] at hlist
    cases hlist
  have hholds := h.refines.holds _ _ _ hlist hv
  have hstored := length_le_stored hw hl
  have hfew := h.few
  rw [TimerMemory.pushLast, VecSystem.vec_eq_ok.mpr hv, ok_bind]
  by_cases hcalls : vecStep (σ := Unit) size s.vecs
      (.pushLast (bucketsStart k + b) t (addr s.allocs)) = .error .noSuchCall
  · rw [hcalls]
    exact .excused _
  · obtain ⟨vecs, hstep, hs⟩ := vecStep_spec h.refines h.fits hcalls (by
      intro v' hv' hfull
      obtain rfl : v = v' := Option.some.inj (hv.symm.trans hv')
      exact grown_fits hlimit hholds (by omega) hfull)
    have hrefines := hs.refines
    rw [vecModel, hlist, Option.map_some] at hrefines
    have hmoved : vecs.vecs timersLocal = some vec := by
      rw [vecStep_pushLast_other hstep (Nat.ne_of_gt hlt)]
      exact h.moved
    have hst := h.store hw hb hl hrefines hs.fits (hs.tidy.mpr ⟨h.tidy, id⟩) hmoved (n := 1)
      (by rw [List.length_append, List.length_singleton])
    rw [hstep, ok_bind]
    exact .ends { hst with }

theorem Stands.call (h : Stands size bound vec timers s rt) (c : Call) :
    Stands size bound vec timers (s.call c) (rt.call c) :=
  { h with calls := congrArg (· ++ [c]) h.calls }

theorem Stands.more (h : Stands size bound vec timers s rt) (hle : bound ≤ limit) :
    Stands size limit vec timers s rt :=
  { h with few := Nat.le_trans h.few hle }

theorem wheelTimerAddFrom_alike (h : Stands size bound vec timers s rt)
    (hlimit : size * (16 + 2 * limit) < 2 ^ 64) (hbound : bound ≤ limit) (level : Nat) (t : Timer) :
    Alike .noSuchCall (Stands size (bound + 1) vec timers)
      (s.wheelTimerAddFrom size addr level t) (wheelTimerAddFrom rt level t) := by
  rw [TimerMemory.wheelTimerAddFrom, wheelTimerAddFrom]
  refine (h.wheel level).bind ?_
  rintro _ w ⟨hw, rfl⟩
  refine (findBucket_alike w _ _).bind ?_
  rintro _ index ⟨rfl, hindex⟩
  cases index with
  | none => exact .ends ((h.call (.timer t)).more (Nat.le_succ _))
  | some i =>
    have hi := hindex i rfl
    obtain ⟨l, hl, hbucket, -⟩ := h.bucket hw hi
    simp only [hbucket, ok_bind]
    exact h.pushLast hlimit hbound hw hi hl t

/-! ## The operations -/

theorem Stands.increase (h : Stands size bound vec timers s rt) :
    Stands size bound vec timers s.increaseTimerLen (increaseTimerLen rt) := by
  have hlen := h.timerLen
  have harmed := h.armed
  refine { h with timerLen := ?_, armed := ?_ }
  · rw [TimerMemory.increaseTimerLen, increaseTimerLen, hlen]
  · simp only [TimerMemory.increaseTimerLen, increaseTimerLen, hlen, harmed]

theorem Stands.decrease (h : Stands size bound vec timers s rt) :
    Stands size bound vec timers s.decreaseTimerLen (decreaseTimerLen rt) := by
  have hlen := h.timerLen
  have harmed := h.armed
  refine { h with timerLen := ?_, armed := ?_ }
  · rw [TimerMemory.decreaseTimerLen, decreaseTimerLen, hlen]
  · simp only [TimerMemory.decreaseTimerLen, decreaseTimerLen, hlen, harmed]

theorem wheelTimerAdd_alike (h : Stands size bound vec timers s rt)
    (hlimit : size * (16 + 2 * limit) < 2 ^ 64) (hbound : bound ≤ limit)
    (level delay handler data : Nat) :
    Alike .noSuchCall (fun p q => Stands size (bound + 1) vec timers p.1 q.1 ∧ p.2 = q.2)
      (s.wheelTimerAdd size addr level delay handler data)
      (wheelTimerAdd rt level delay handler data) := by
  rw [TimerMemory.wheelTimerAdd, wheelTimerAdd]
  by_cases hzero : delay = 0
  · rw [if_pos hzero, if_pos hzero]
    exact .ends ⟨(h.call _).more (Nat.le_succ _), rfl⟩
  · rw [if_neg hzero, if_neg hzero]
    refine (h.wheel level).bind ?_
    rintro _ w ⟨-, rfl⟩
    have hid := h.nextTimerId
    have hnext : Stands size bound vec timers { s with nextTimerId := u64 (s.nextTimerId + 1) }
        { rt with nextTimerId := u64 (rt.nextTimerId + 1) } :=
      { h with nextTimerId := by rw [hid] }
    rw [hid] at hnext ⊢
    refine (wheelTimerAddFrom_alike hnext hlimit hbound level _).bind ?_
    intro s' rt' h'
    exact .ends ⟨h', rfl⟩

theorem runtimeAddTimer_alike (h : Stands size bound vec timers s rt)
    (hlimit : size * (16 + 2 * limit) < 2 ^ 64) (hbound : bound ≤ limit) (delay : UInt64)
    (handler data : Nat) :
    Alike .noSuchCall (fun p q => Stands size (bound + 1) vec timers p.1 q.1 ∧ p.2 = q.2)
      (s.runtimeAddTimer size addr delay handler data) (runtimeAddTimer rt delay handler data) := by
  rw [TimerMemory.runtimeAddTimer, runtimeAddTimer]
  refine (wheelTimerAdd_alike h hlimit hbound _ _ _ _).bind ?_
  rintro ⟨s', handle⟩ ⟨rt', _⟩ ⟨h', rfl⟩
  dsimp only
  by_cases hvalid : timerValid handle = true
  · rw [if_pos hvalid, if_pos hvalid]
    exact .ends ⟨h'.increase, rfl⟩
  · rw [if_neg hvalid, if_neg hvalid]
    exact .ends ⟨h', rfl⟩

theorem runtimeAddTimerFrom_alike (h : Stands size bound vec timers s rt)
    (hlimit : size * (16 + 2 * limit) < 2 ^ 64) (hbound : bound ≤ limit) (t : Timer)
    (isRescheduling : Bool) :
    Alike .noSuchCall (Stands size (bound + 1) vec timers)
      (s.runtimeAddTimerFrom size addr t isRescheduling) (runtimeAddTimerFrom rt t isRescheduling) := by
  rw [TimerMemory.runtimeAddTimerFrom, runtimeAddTimerFrom]
  refine (h.wheel 0).bind ?_
  intro m w hm
  obtain ⟨htick, hres, -⟩ := inMemory_fields hm.2
  rw [htick, hres]
  dsimp only
  generalize (if isRescheduling = true then u64 (u64 (w.tick * w.resolution) + w.resolution)
      else u64 (w.tick * w.resolution)) = time
  by_cases hdue : time ≥ t.expiryTime
  · rw [if_pos hdue, if_pos hdue]
    cases isRescheduling with
    | true => exact .fails _
    | false => exact .ends ((h.call _).more (Nat.le_succ _))
  · rw [if_neg hdue, if_neg hdue]
    cases isRescheduling with
    | true => exact wheelTimerAddFrom_alike h hlimit hbound _ t
    | false => exact wheelTimerAddFrom_alike h.increase hlimit hbound _ t

/-- Removing from a bucket, with the handler calls made meanwhile. -/
theorem Stands.removeIf (h : Stands size bound vec timers s rt) {k b : Nat} {w : WheelTimer}
    {l : List Timer} (hw : rt.wheels[k]? = some w) (hb : b < w.wheelSize)
    (hl : w.timerBuckets[b]? = some l) (predicate : Timer → List Call → Predicate × List Call) :
    ∃ s', s.removeIf predicate (bucketsStart k + b) = .ok s' ∧
      Stands size bound vec timers s'
        { rt.modifyWheel k (·.setBucket b (vecRemoveIf predicate l rt.calls).1) with
          calls := (vecRemoveIf predicate l rt.calls).2 } := by
  obtain ⟨l', hl', -, hlist, hlt⟩ := h.bucket hw hb
  obtain rfl : l = l' := Option.some.inj (hl.symm.trans hl')
  obtain ⟨v, hv⟩ := Option.ne_none_iff_exists'.mp fun hnone => by
    rw [(h.refines.same _).mpr hnone] at hlist
    cases hlist
  have hholds := h.refines.holds _ _ _ hlist hv
  obtain ⟨r, hloop, hr⟩ := vec_remove_if_spec predicate s.calls hholds
  have hex : Exchanges v.data r.vec.data s.vecs.memory r.memory := by
    rw [hr.data]
    exact hr.same.exchanges
  obtain ⟨hleft, hstate⟩ := hr.refines
  have hmoved : (s.vecs.store (bucketsStart k + b) (r.memory, r.vec)).vecs timersLocal = some vec :=
    (Function.update_of_ne (Nat.ne_of_gt hlt) _ _).trans h.moved
  have hst := h.store hw hb hl (h.refines.store hv hleft hex)
    (fits_setVec _ h.fits (by rw [hr.capacity]; exact h.fits _ _ hv))
    ((VecsRefine.tidy_store hv hex).mpr h.tidy) hmoved (n := 0)
    (vecRemoveIf_sublist predicate l s.calls).length_le
  refine ⟨{ s with vecs := s.vecs.store (bucketsStart k + b) (r.memory, r.vec), calls := r.state },
    ?_, ?_⟩
  · rw [TimerMemory.removeIf, VecSystem.vec_eq_ok.mpr hv, ok_bind, hholds.len, hloop]
    rfl
  · rw [← h.calls]
    exact { hst with calls := hstate }

theorem runtimeTimerRemove_alike (h : Stands size bound vec timers s rt)
    (predicate : TimerHandle → Timer → List Call → Predicate × List Call) (handle : TimerHandle) :
    Alike .noSuchCall (Stands size bound vec timers)
      (s.runtimeTimerRemove (fun rt level handle => rt.timerRemove (predicate handle) level handle)
        handle)
      (runtimeTimerRemove (fun rt level handle => timerRemove (predicate handle) rt level handle)
        rt handle) := by
  rw [TimerMemory.runtimeTimerRemove, runtimeTimerRemove, runtimeTime]
  show Alike _ _ _ ((rt.wheel 0 >>= fun w => .ok (u64 (w.tick * w.resolution))) >>= _)
  rw [bind_assoc]
  refine (h.wheel 0).bind ?_
  intro m w₀ hm
  obtain ⟨htick, hres, -⟩ := inMemory_fields hm.2
  rw [htick, hres, ok_bind]
  by_cases hdue : u64 (w₀.tick * w₀.resolution) ≥ handle.expiryTime
  · rw [if_pos hdue, if_pos hdue]
    exact .ends h
  · rw [if_neg hdue, if_neg hdue]
    dsimp only
    generalize findWheel (handle.expiryTime - u64 (w₀.tick * w₀.resolution)) = level
    refine Alike.bind (R := Stands size bound vec timers) ?_ fun _ _ h' => .ends h'.decrease
    rw [TimerMemory.timerRemove, timerRemove]
    refine (h.wheel level).bind ?_
    rintro _ w ⟨hw, rfl⟩
    refine (findBucket_alike w _ _).bind ?_
    rintro _ index ⟨rfl, hindex⟩
    cases index with
    | none => exact .ends h
    | some i =>
      have hi := hindex i rfl
      obtain ⟨l, hl, hbucket, -⟩ := h.bucket hw hi
      obtain ⟨s', hs', h'⟩ := h.removeIf hw hi hl (predicate handle)
      simp only [hbucket, ok_bind, Option.map_some, hs']
      exact .ends h'

/-! ## The tick -/

theorem tickTimer_alike (h : Stands size bound vec timers s rt)
    (hlimit : size * (16 + 2 * limit) < 2 ^ 64) (hbound : bound ≤ limit) (level time : Nat)
    (expiryHandler : Bool) (t : Timer) :
    Alike .noSuchCall (Stands size (bound + 1) vec timers)
      (s.tickTimer size addr level time expiryHandler t)
      (tickTimer level time expiryHandler rt t) := by
  rw [TimerMemory.tickTimer, tickTimer]
  by_cases hdue : time ≥ t.expiryTime
  · rw [if_pos hdue, if_pos hdue]
    cases expiryHandler with
    | true => exact .ends ((h.call (.timer t)).decrease.more (Nat.le_succ _))
    | false => exact .fails _
  · rw [if_neg hdue, if_neg hdue]
    cases expiryHandler with
    | true => exact runtimeAddTimerFrom_alike h hlimit hbound t true
    | false => exact wheelTimerAddFrom_alike h hlimit hbound level t

/-- The loop over the local vector, from the index behind the timers `done`. The vector is left alone by
what is done with its timers. -/
theorem tickTimers_alike (hlimit : size * (16 + 2 * limit) < 2 ^ 64) (level time : Nat)
    (expiryHandler : Bool) (rest : List Timer) :
    ∀ (done : List Timer) (bound : Nat) (s : TimerMemory) (rt : TimerRuntime),
      Stands size bound vec (done ++ rest) s rt → bound + rest.length ≤ limit →
      Alike .noSuchCall (Stands size (bound + rest.length) vec (done ++ rest))
        ((List.range' done.length rest.length).foldlM
          (TimerMemory.tickIndex size addr level time expiryHandler) s)
        (rest.foldlM (tickTimer level time expiryHandler) rt) := by
  induction rest with
  | nil =>
    intro done bound s rt h _
    exact .ends h
  | cons t rest ih =>
    intro done bound s rt h hle
    rw [List.length_cons] at hle ⊢
    rw [List.range'_succ, List.foldlM_cons, List.foldlM_cons]
    have hlist : rt.lists (done ++ t :: rest) timersLocal = some (done ++ t :: rest) := by
      rw [TimerRuntime.lists, List.getElem?_append_right (Nat.le_of_eq h.total), h.total,
        Nat.sub_self]
      rfl
    have hread := (h.refines.holds _ _ _ hlist h.moved).read (i := done.length) (by simp)
    have hvisit : s.tickIndex size addr level time expiryHandler done.length =
        s.tickTimer size addr level time expiryHandler t := by
      rw [TimerMemory.tickIndex, VecSystem.vec_eq_ok.mpr h.moved, ok_bind, hread, ok_bind]
      simp
    rw [hvisit]
    refine (tickTimer_alike h hlimit (by omega) level time expiryHandler t).bind ?_
    intro s₁ rt₁ h₁
    rw [List.append_cons] at h₁ ⊢
    have hrest := ih (done ++ [t]) (bound + 1) s₁ rt₁ h₁ (by omega)
    rw [List.length_append, List.length_singleton, Nat.add_assoc, Nat.add_comm 1] at hrest
    exact hrest

/-- Destroying a vector: it has no buffer, and the others are as they were. -/
theorem vecStep_clear {lists : Nat → Option (List Timer)} {vecs : VecSystem Timer} {v : Nat}
    {vec : Vec} (h : VecsRefine lists vecs) (hfits : vecs.Fits size) (hv : vecs.vecs v = some vec) :
    ∃ vecs', vecStep (σ := Unit) size vecs (.clear v) = .ok vecs' ∧
      VecsRefine (Function.update lists v (some [])) vecs' ∧ vecs'.Fits size ∧
      (vecs'.Tidy ↔ vecs.Tidy) ∧ vecs'.vecs = Function.update vecs.vecs v (some Vec.init) := by
  obtain ⟨l, -, hholds⟩ := h.list hv
  obtain ⟨m', hclear, hex⟩ := Vec.clear_spec hholds
  exact ⟨_, vecStep_store hv hclear, h.store hv (Vec.holds_init m') hex,
    fits_setVec _ hfits (by simp [Vec.init]), VecsRefine.tidy_store hv hex, rfl⟩

/-- A bucket is moved to the local vector. -/
theorem Rests.drain (h : Rests size bound s rt) {k b : Nat} {w : WheelTimer} {l : List Timer}
    (hw : rt.wheels[k]? = some w) (hb : b < w.wheelSize) (hl : w.timerBuckets[b]? = some l) :
    ∃ vecs v, vecStep (σ := Unit) size s.vecs (.move timersLocal (bucketsStart k + b)) = .ok vecs ∧
      vecs.vec timersLocal = .ok v ∧ v.len = l.length ∧
      Stands size (rt.modifyWheel k (·.setBucket b [])).stored.length v l { s with vecs := vecs }
        (rt.modifyWheel k (·.setBucket b [])) := by
  obtain ⟨l', hl', -, hlist, hlt⟩ := h.bucket hw hb
  obtain rfl : l = l' := Option.some.inj (hl.symm.trans hl')
  obtain ⟨v, hv⟩ := Option.ne_none_iff_exists'.mp fun hnone => by
    rw [(h.refines.same _).mpr hnone] at hlist
    cases hlist
  have hne : bucketsStart k + b ≠ timersLocal := Nat.ne_of_lt hlt
  have hmove : vecStep (σ := Unit) size s.vecs (.move timersLocal (bucketsStart k + b)) =
      .ok { s.vecs.setVec timersLocal Vec.init with
        vecs := (s.vecs.setVec timersLocal Vec.init).vecs ∘
          Equiv.swap timersLocal (bucketsStart k + b) } := move_eq hv
  obtain ⟨vecs, hstep, hs⟩ := vecStep_spec (o := .move timersLocal (bucketsStart k + b)) h.refines
    h.fits (by rw [hmove]; rintro ⟨⟩) (by
      intro vec hvec
      obtain rfl : Vec.init = vec := Option.some.inj (h.moved.symm.trans hvec)
      rfl)
  have hmoved : vecs.vecs timersLocal = some v := by
    rw [vecStep, VecSystem.vec_eq_ok.mpr hv, ok_bind] at hstep
    cases hstep
    have hself : (s.vecs.setVec timersLocal v).vecs timersLocal = some v := by
      simp [VecSystem.setVec]
    exact (Function.update_of_ne hne.symm _ _).trans hself
  have hrefines := hs.refines
  rw [vecModel, hlist, h.lists_local l] at hrefines
  have hst := h.store hw hb hl hrefines hs.fits (hs.tidy.mpr ⟨h.tidy, id⟩) hmoved (n := 0)
    (Nat.zero_le _)
  exact ⟨vecs, v, hstep, VecSystem.vec_eq_ok.mpr hmoved, (h.refines.holds _ _ _ hlist hv).len,
    { hst with few := Nat.le_refl _ }⟩

/-- The local vector is destroyed when all of its timers are visited. -/
theorem Stands.destroy (h : Stands size bound vec timers s rt) :
    ∃ vecs, vecStep (σ := Unit) size s.vecs (.clear timersLocal) = .ok vecs ∧
      Rests size bound { s with vecs := vecs } rt := by
  obtain ⟨vecs, hstep, hrefines, hfits, htidy, hvecs⟩ := vecStep_clear h.refines h.fits h.moved
  rw [h.lists_local []] at hrefines
  refine ⟨vecs, hstep, { h with
    refines := hrefines, fits := hfits, tidy := htidy.mpr h.tidy, moved := ?_ }⟩
  show vecs.vecs timersLocal = some Vec.init
  rw [hvecs]
  exact Function.update_self ..

theorem wheelTimerTick_alike (hlimit : size * (16 + 2 * limit) < 2 ^ 64) (hbound : bound ≤ limit) :
    ∀ (levels level : Nat) (s : TimerMemory) (rt : TimerRuntime), Rests size bound s rt →
      Alike .noSuchCall (Rests size bound) (s.wheelTimerTick size addr levels level)
        (wheelTimerTick levels level rt)
  | 0, _, _, _, _ => .fails _
  | levels + 1, level, s, rt, h => by
    rw [TimerMemory.wheelTimerTick, wheelTimerTick]
    refine (h.wheel level).bind ?_
    rintro m w ⟨hw, hm⟩
    obtain ⟨htick, hres, hid, hsize, hloop, hexpiry, hat⟩ := inMemory_fields hm
    rw [htick, hres, hid, hsize, hloop, hexpiry]
    dsimp only
    by_cases hzero : w.wheelSize = 0
    · rw [if_pos hzero, if_pos hzero]
      exact .fails _
    · rw [if_neg hzero, if_neg hzero]
      have hb : u64 (w.tick + 1) % w.wheelSize < w.wheelSize := Nat.mod_lt _ (by omega)
      obtain ⟨l, hl, hbucket, -⟩ := h.bucket hw hb
      obtain ⟨vecs, v, hmove, hv, hlen, hdrained⟩ := Rests.drain h hw hb hl
      have hstored := stored_setBucket hw hl []
      have hfew := h.few
      rw [List.length_nil] at hstored
      rw [hat, ok_bind, hmove, ok_bind, hv, ok_bind, hbucket, ok_bind, hlen, List.range_eq_range']
      refine Alike.bind (tickTimers_alike hlimit level _ w.expiryHandler l [] _ _ _ hdrained
        (by omega)) ?_
      intro s₁ rt₁ h₁
      obtain ⟨vecs₁, hclear, hrests⟩ := h₁.destroy
      have hrests : Rests size bound { s₁ with vecs := vecs₁ } rt₁ := hrests.more (by omega)
      rw [hclear, ok_bind]
      refine Alike.bind (R := Rests size bound) ?_ ?_
      · split
        · exact wheelTimerTick_alike hlimit hbound levels _ _ _ hrests
        · exact .ends hrests
      · intro s₂ rt₂ h₂
        exact .ends (h₂.modifyWheel level (fun _ _ => rfl) fun _ => ⟨rfl, rfl⟩)

/-! ## Runs -/

theorem Stands.length_wheels (h : Stands size bound vec timers s rt) :
    s.wheels.length = rt.wheels.length := by
  have heq : s.wheels = rt.wheels.mapIdx fun k w => w.inMemory (bucketsStart k) := by
    refine List.ext_getElem? ?_
    intro k
    rw [h.wheels k, List.getElem?_mapIdx]
  rw [heq, List.length_mapIdx]

theorem timerMemoryStep_alike (h : Rests size bound s rt)
    (hlimit : size * (16 + 2 * limit) < 2 ^ 64) (hbound : bound < limit) (o : TimerOp) :
    Alike .noSuchCall (Rests size (bound + 1)) (timerMemoryStep size addr s o) (timerStep rt o) := by
  have hmore : ∀ s' rt', Rests size bound s' rt' → Rests size (bound + 1) s' rt' :=
    fun _ _ h' => h'.more (Nat.le_succ bound)
  cases o with
  | add delay handler data =>
    refine (runtimeAddTimer_alike h hlimit hbound.le delay handler data).bind ?_
    intro p q h'
    exact .ends h'.1
  | tick =>
    rw [timerMemoryStep, timerStep, TimerMemory.runtimeTick, runtimeTick, h.length_wheels]
    exact (wheelTimerTick_alike hlimit hbound.le _ _ s rt h).mono hmore
  | abort handle => exact (runtimeTimerRemove_alike h abortPredicate handle).mono hmore
  | fire handle => exact (runtimeTimerRemove_alike h firePredicate handle).mono hmore

theorem wheelSetup_get {nextTimerId : UInt64} {k : Nat} {w : WheelTimer}
    (hw : (wheelSetup nextTimerId).wheels[k]? = some w) :
    w = wheelInit k (resolutions.getD k 0) (lengths.getD k 0) := by
  rw [wheelSetup, List.getElem?_map] at hw
  obtain ⟨i, hi, rfl⟩ := Option.map_eq_some_iff.mp hw
  obtain ⟨hlt, hget⟩ := List.getElem?_eq_some_iff.mp hi
  rw [List.getElem_range] at hget
  rw [hget]

/-- After `_wheel_setup` all buckets are empty. -/
theorem rests_setup (size : ℕ+) (nextTimerId : UInt64) :
    Rests size 0 (timerMemory nextTimerId) (wheelSetup nextTimerId) := by
  have hlens : (wheelSetup nextTimerId).wheels.map (·.timerBuckets.length) = lengths := by
    rw [wheelSetup, List.map_map]
    show (List.range wheelLevelSize).map
      (fun i => (List.replicate (lengths.getD i 0) ([] : List Timer)).length) = lengths
    simp only [List.length_replicate]
    rfl
  have hempty : ((wheelSetup nextTimerId).wheels.map (·.timerBuckets)).flatten ++ [[]] =
      List.replicate (timersLocal + 1) [] := by
    refine List.eq_replicate_iff.mpr ⟨?_, ?_⟩
    · rw [List.length_append, List.length_flatten, List.map_map]
      exact congrArg (List.sum · + 1) hlens
    · intro l hl
      simp only [wheelSetup, wheelInit, List.mem_append, List.mem_flatten, List.mem_map,
        List.mem_singleton] at hl
      rcases hl with ⟨_, ⟨w, ⟨i, -, rfl⟩, rfl⟩, hl⟩ | rfl
      · exact List.eq_of_mem_replicate hl
      · rfl
  have hlists : ∀ v, (wheelSetup nextTimerId).lists [] v =
      if v ≤ timersLocal then some [] else none := by
    intro v
    rw [TimerRuntime.lists, hempty, List.getElem?_replicate]
    exact if_congr Nat.lt_succ_iff rfl rfl
  have hvecs : ∀ v vec, (timerMemory nextTimerId).vecs.vecs v = some vec → vec = Vec.init := by
    intro v vec hv
    simp only [timerMemory] at hv
    split at hv
    · exact (Option.some.inj hv).symm
    · cases hv
  refine ⟨hlens, ?_, ?_, ⟨?_, ?_, ?_⟩, ?_, fun a ha => absurd rfl ha, rfl, ?_, rfl, rfl, rfl, rfl⟩
  · intro k w hw
    rw [wheelSetup_get hw]
    exact List.length_replicate.symm
  · intro k
    rw [timerMemory, wheelSetup, List.getElem?_map, List.getElem?_map]
    cases hk : (List.range wheelLevelSize)[k]? with
    | none => rfl
    | some i =>
      obtain ⟨hlt, hget⟩ := List.getElem?_eq_some_iff.mp hk
      obtain rfl : k = i := by rwa [List.getElem_range] at hget
      rfl
  · intro v
    rw [hlists]
    simp only [timerMemory]
    split <;> simp
  · intro v l vec hl hv
    rw [hlists] at hl
    rw [hvecs v vec hv]
    split at hl
    · cases hl
      exact Vec.holds_init _
    · cases hl
  · intro v w vec vec' a hv _ hdata
    rw [hvecs v vec hv] at hdata
    cases hdata
  · intro v vec hv
    rw [hvecs v vec hv]
    simp [Vec.init]
  · rw [← Multiset.coe_card]
    exact Nat.le_of_eq (by rw [← TimerRuntime.pending, pending_setup]; rfl)

theorem timerMemory_alike (size : ℕ+) (addr : Nat → Nat) (nextTimerId : UInt64) (os : List TimerOp)
    (hlimit : size * (16 + 2 * os.length) < 2 ^ 64) :
    Alike .noSuchCall (Rests size os.length)
      (Lib.run (timerMemoryStep size addr) (timerMemory nextTimerId) os)
      (Lib.run timerStep (wheelSetup nextTimerId) os) := by
  have hstep : ∀ n s rt o, n < os.length → Rests size n s rt →
      Alike .noSuchCall (Rests size (n + 1)) (timerMemoryStep size addr s o) (timerStep rt o) :=
    fun n s rt o hn h => timerMemoryStep_alike h hlimit hn o
  have hrun := Alike.run hstep os (Nat.le_of_eq (Nat.zero_add _)) (rests_setup size nextTimerId)
  rwa [Nat.zero_add] at hrun

/-- **In memory the wheels do what they do on lists.** The run ends with the same fault, or in a state
where every bucket has its timers in a buffer of its own and no other buffer is live. The allocator may
return any address that is not live. -/
theorem timer_memory_refines (size : ℕ+) (addr : Nat → Nat) (nextTimerId : UInt64)
    (os : List TimerOp) (hlimit : size * (16 + 2 * os.length) < 2 ^ 64)
    (hcalls : Lib.run (timerMemoryStep size addr) (timerMemory nextTimerId) os ≠ .error .noSuchCall) :
    (∃ e, Lib.run (timerMemoryStep size addr) (timerMemory nextTimerId) os = .error e ∧
        Lib.run timerStep (wheelSetup nextTimerId) os = .error e) ∨
      ∃ s rt, Lib.run (timerMemoryStep size addr) (timerMemory nextTimerId) os = .ok s ∧
        Lib.run timerStep (wheelSetup nextTimerId) os = .ok rt ∧ Rests size os.length s rt := by
  have hrun := timerMemory_alike size addr nextTimerId os hlimit
  generalize Lib.run (timerMemoryStep size addr) (timerMemory nextTimerId) os = m at hrun hcalls ⊢
  generalize Lib.run timerStep (wheelSetup nextTimerId) os = r at hrun ⊢
  cases hrun with
  | excused => exact absurd rfl hcalls
  | fails e => exact Or.inl ⟨e, rfl, rfl⟩
  | ends h => exact Or.inr ⟨_, _, rfl, rfl, h⟩

/-- A bucket grows past its first buffer, and is visited. -/
theorem timer_memory_refines_grown :
    let os : List TimerOp := List.replicate 17 (.add 2 4 5) ++ [.tick, .abort ⟨3, 2⟩, .tick]
    (∃ e, Lib.run (timerMemoryStep 32 id) (timerMemory 0) os = .error e ∧
        Lib.run timerStep (wheelSetup 0) os = .error e) ∨
      ∃ s rt, Lib.run (timerMemoryStep 32 id) (timerMemory 0) os = .ok s ∧
        Lib.run timerStep (wheelSetup 0) os = .ok rt ∧ Rests 32 os.length s rt := by
  intro os
  refine timer_memory_refines 32 id 0 os (by decide) ?_
  intro hfail
  have hok := congrArg (fun r : Except Fault TimerMemory => match r with
    | .ok _ => true
    | .error _ => false) hfail
  revert hok
  decide +kernel

end Taskio
