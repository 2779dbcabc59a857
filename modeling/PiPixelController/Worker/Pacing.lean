import PiPixelController.Worker.RoundTrip

/-!
# The pace of the worker

At the end of each iteration the worker compares the time the iteration took with `REFRESH_TIME`,
50000 microseconds, and sleeps for the rest. Here an iteration is timed: the clock counts
nanoseconds, each of the two readings may fail, and `usleep` returns no earlier than asked.

* `TimedRefresh.spaced_iff` — the next iteration starts `REFRESH_TIME` after this one, unless
  exactly one of the two readings fails;
* `sum_frameBytes_le` — so no window of time sees more bytes on the SPI bus than its refreshes
  can carry.
-/

namespace PiPixelController

open CSemantics

/-- `struct timespec`. -/
structure Timespec where
  /-- `tv_sec`. -/
  tvSec : ℤ
  /-- `tv_nsec`. -/
  tvNsec : ℤ
deriving DecidableEq

/-- What `clock_gettime` returns `n` nanoseconds after the start of the clock. -/
def Timespec.ofNanoseconds (n : ℕ) : Timespec := ⟨n / 1000000000, n % 1000000000⟩

/-- `get_microsecond_timestamp`, where `t` is what `clock_gettime` returns; it is `none` when the
call fails. -/
def getMicrosecondTimestamp (t : Option Timespec) : BitVec 64 :=
  match t with
  | none => 0
  -- the seconds are converted before the product, the quotient after it
  | some t => BitVec.ofInt 64 t.tvSec * 1000000#64 + BitVec.ofInt 64 (t.tvNsec.tdiv 1000)

/-- `REFRESH_TIME`. -/
def refreshTime : ℕ := 50000

/-- The argument of the `usleep` at the end of an iteration, if it is called. -/
def pause (previousTimestamp currentTimestamp : BitVec 64) : Option (BitVec 32) :=
  let timeDiff := currentTimestamp - previousTimestamp
  -- `REFRESH_TIME` is converted to `uint64_t`, the difference to the 32-bit `useconds_t`
  if timeDiff < BitVec.ofNat 64 refreshTime then
    some ((BitVec.ofNat 64 refreshTime - timeDiff).setWidth 32)
  else none

/-- An iteration of the loop of `worker` that completes, with its times in nanoseconds. -/
structure TimedRefresh where
  before : Controller
  rets : Fin 4 → ℤ
  after : Controller
  events : List (Fin 4 × SpiEvent)
  ran : workerRefresh rets before = .ok (after, events)
  /-- When the clock is read at the start of the iteration. -/
  started : ℕ
  /-- When it is read at the end. -/
  finished : ℕ
  started_le_finished : started ≤ finished
  /-- Whether the first reading succeeds. -/
  startRead : Bool
  /-- Whether the second reading succeeds. -/
  finishRead : Bool

namespace TimedRefresh

/-- `previous_timestamp`. -/
def previousTimestamp (r : TimedRefresh) : BitVec 64 :=
  getMicrosecondTimestamp (if r.startRead then some (.ofNanoseconds r.started) else none)

/-- `current_timestamp`. -/
def currentTimestamp (r : TimedRefresh) : BitVec 64 :=
  getMicrosecondTimestamp (if r.finishRead then some (.ofNanoseconds r.finished) else none)

/-- How long the iteration sleeps, in microseconds. -/
def sleep (r : TimedRefresh) : ℕ :=
  ((pause r.previousTimestamp r.currentTimestamp).map BitVec.toNat).getD 0

/-- The microsecond in which the iteration starts. -/
def startTime (r : TimedRefresh) : ℕ := r.started / 1000

/-- The iteration `r'` comes after `r`: `usleep` sleeps at least as long as it is asked to. -/
def Precedes (r r' : TimedRefresh) : Prop := r.finished + 1000 * r.sleep ≤ r'.started

end TimedRefresh

/-! ### Readings of the clock -/

theorem toNat_getMicrosecondTimestamp {n : ℕ} (h : n / 1000 < 2 ^ 64) :
    (getMicrosecondTimestamp (some (.ofNanoseconds n))).toNat = n / 1000 := by
  have hquot : ((n : ℤ) % 1000000000).tdiv 1000 = ((n % 1000000000 / 1000 : ℕ) : ℤ) := by
    rw [Int.tdiv_eq_ediv_of_nonneg (by omega)]
    norm_cast
  have hsec : (n : ℤ) / 1000000000 = ((n / 1000000000 : ℕ) : ℤ) := by norm_cast
  simp only [getMicrosecondTimestamp, Timespec.ofNanoseconds, hquot, hsec, BitVec.ofInt_natCast]
  rw [BitVec.toNat_add, BitVec.toNat_mul, BitVec.toNat_ofNat, BitVec.toNat_ofNat,
    BitVec.toNat_ofNat]
  omega

/-- `usleep` is asked for what is left of `REFRESH_TIME`, and never for more than that. -/
theorem toNat_pause (previousTimestamp currentTimestamp : BitVec 64) :
    ((pause previousTimestamp currentTimestamp).map BitVec.toNat).getD 0 =
      refreshTime - (currentTimestamp - previousTimestamp).toNat := by
  have hrefresh : (BitVec.ofNat 64 refreshTime).toNat = refreshTime := rfl
  rw [pause]
  by_cases h : currentTimestamp - previousTimestamp < BitVec.ofNat 64 refreshTime
  · have hle := BitVec.le_of_lt h
    rw [if_pos h, Option.map_some, Option.getD_some, BitVec.toNat_setWidth,
      BitVec.toNat_sub_of_le hle, hrefresh, refreshTime]
    omega
  · rw [if_neg h, Option.map_none, Option.getD_none]
    rw [BitVec.lt_def, hrefresh] at h
    omega

/-! ### The next iteration -/

namespace TimedRefresh

variable {r r' : TimedRefresh}

theorem toNat_previousTimestamp (hclock : r.finished / 1000 < 2 ^ 64) :
    r.previousTimestamp.toNat = if r.startRead then r.startTime else 0 := by
  have hle : r.started / 1000 ≤ r.finished / 1000 := Nat.div_le_div_right r.started_le_finished
  rw [previousTimestamp]
  split
  · exact toNat_getMicrosecondTimestamp (by omega)
  · rfl

theorem toNat_currentTimestamp (hclock : r.finished / 1000 < 2 ^ 64) :
    r.currentTimestamp.toNat = if r.finishRead then r.finished / 1000 else 0 := by
  rw [currentTimestamp]
  split
  · exact toNat_getMicrosecondTimestamp hclock
  · rfl

/-- With both readings, or with neither, the next iteration starts `REFRESH_TIME` after this
one. -/
theorem Precedes.spaced (h : r.Precedes r') (hread : r.startRead = r.finishRead)
    (hclock : r.finished / 1000 < 2 ^ 64) : r.startTime + refreshTime ≤ r'.startTime := by
  have hle : r.started / 1000 ≤ r.finished / 1000 := Nat.div_le_div_right r.started_le_finished
  have hsleep : r.sleep = refreshTime - (r.currentTimestamp - r.previousTimestamp).toNat :=
    toNat_pause ..
  rw [BitVec.toNat_sub, toNat_previousTimestamp hclock, toNat_currentTimestamp hclock, ← hread,
    startTime] at hsleep
  rw [Precedes, hsleep] at h
  rw [startTime, startTime]
  cases hstart : r.startRead with
  | false =>
      -- both timestamps are 0, so the worker sleeps for the whole of `REFRESH_TIME`
      simp only [hstart, Bool.false_eq_true, if_false] at h
      omega
  | true =>
      simp only [hstart, if_true] at h
      omega

/-- With exactly one reading the difference is that reading or its complement, and the iteration
does not sleep. -/
theorem sleep_of_ne (hread : r.startRead ≠ r.finishRead) (hup : refreshTime ≤ r.startTime)
    (hclock : r.finished / 1000 + refreshTime ≤ 2 ^ 64) : r.sleep = 0 := by
  have hle : r.started / 1000 ≤ r.finished / 1000 := Nat.div_le_div_right r.started_le_finished
  rw [refreshTime] at hclock
  have hsleep : r.sleep = refreshTime - (r.currentTimestamp - r.previousTimestamp).toNat :=
    toNat_pause ..
  rw [BitVec.toNat_sub, toNat_previousTimestamp (by omega), toNat_currentTimestamp (by omega)]
    at hsleep
  rw [startTime, refreshTime] at *
  cases hstart : r.startRead <;> cases hfinish : r.finishRead <;>
    simp only [hstart, hfinish, ne_eq, not_true_eq_false, Bool.false_eq_true, if_true,
      if_false] at hread hsleep <;> omega

/-- For every iteration that takes less than `REFRESH_TIME`, on a machine that has been up for at
least that long: whatever comes next starts `REFRESH_TIME` after it, if and only if both readings
of the clock succeed or both fail. -/
theorem spaced_iff (hup : refreshTime ≤ r.startTime)
    (hclock : r.finished / 1000 + refreshTime ≤ 2 ^ 64)
    (hshort : r.finished / 1000 < r.startTime + refreshTime) :
    (∀ r', r.Precedes r' → r.startTime + refreshTime ≤ r'.startTime) ↔
      r.startRead = r.finishRead := by
  constructor
  · intro h
    by_contra hread
    -- the next iteration may start right away
    have hnext := h { r with started := r.finished, started_le_finished := le_rfl } (by
      rw [Precedes, sleep_of_ne hread hup hclock, Nat.mul_zero, Nat.add_zero])
    change r.startTime + refreshTime ≤ r.finished / 1000 at hnext
    omega
  · intro hread r' h
    exact h.spaced hread (by rw [refreshTime] at hclock; omega)

/-- `spaced_iff` for an iteration whose second reading of the clock fails. -/
theorem spaced_iff_sample :
    ∃ r : TimedRefresh, r.started = 70000000 ∧ r.finished = 71000000 ∧
      ¬∀ r', r.Precedes r' → r.startTime + refreshTime ≤ r'.startTime := by
  let c : Controller := { (default : Controller) with workers := Workers.zero }
  obtain ⟨c', es, hran, -⟩ := @workerRefresh_of_packable c (by decide) (fun _ => 0)
  let r : TimedRefresh := ⟨c, _, c', es, hran, 70000000, 71000000, by norm_num, true, false⟩
  refine ⟨r, rfl, rfl, fun h => ?_⟩
  have hread := (@spaced_iff r (by norm_num [r, refreshTime, startTime])
    (by norm_num [r, refreshTime]) (by norm_num [r, refreshTime, startTime])).mp h
  cases hread

/-- The bytes an iteration puts on the SPI bus. -/
def frameBytes (r : TimedRefresh) : ℕ := ((frames r.events).map fun f => f.2.length).sum

end TimedRefresh

/-! ### The bytes of a window of time -/

/-- The frame of a packable port has 16 bytes and those of its strings. -/
theorem length_portFrame {c : Controller} {p : Fin 4} (hp : (p : ℤ) < c.workers.pixelPorts.toInt)
    (h : PortPackable c.workers.mapping p) :
    ((portFrame c p).length : ℤ) = 16 + portCount c.workers.mapping p := by
  obtain ⟨payload, count, -, hframe, hcount⟩ := refreshPort_of_packable hp h (fun _ => 0) []
  rw [← hframe, ControlBuffer.length_bytes, hcount]

/-- A refresh that completes sends at most four frames of at most `sizeof(control_buffer)`
bytes. -/
theorem TimedRefresh.frameBytes_le (r : TimedRefresh) : r.frameBytes ≤ 4 * 19216 := by
  have hpack := packable_of_workerRefresh r.ran
  obtain ⟨c', es, hrun, -, hframes⟩ := workerRefresh_of_packable hpack r.rets
  obtain ⟨-, rfl⟩ := Prod.mk.inj (Outcome.ok.inj (r.ran.symm.trans hrun))
  rw [frameBytes, hframes, refreshFrames, List.map_map]
  calc _ ≤ _ := List.sum_le_card_nsmul _ 19216 ?_
    _ ≤ _ := ?_
  · intro n hn
    obtain ⟨p, hp, rfl⟩ := List.mem_map.mp hn
    have hlt : (p : ℤ) < r.before.workers.pixelPorts.toInt := by
      simpa using (List.mem_filter.mp hp).2
    have hlength := length_portFrame hlt (hpack p hlt)
    have hle := (hpack p hlt).portCount_le
    simp only [Function.comp_apply]
    omega
  · rw [List.length_map, nsmul_eq_mul, Nat.cast_id]
    exact Nat.mul_le_mul_right _ ((List.length_filter_le ..).trans (List.length_finRange).le)

/-- Times at least `d` apart in an interval are few. -/
theorem mul_length_le_of_spaced {d a b : ℕ} {ts : List ℕ} (h : ts.Pairwise fun t t' => t + d ≤ t')
    (hmem : ∀ t ∈ ts, a ≤ t ∧ t ≤ b) (hne : ts ≠ []) : a + d * (ts.length - 1) ≤ b := by
  induction ts generalizing a with
  | nil => exact absurd rfl hne
  | cons t ts ih =>
      obtain ⟨ha, hb⟩ := hmem t List.mem_cons_self
      rw [List.pairwise_cons] at h
      cases ts with
      | nil => simpa using ha.trans hb
      | cons t' ts =>
          -- the later ones are in the interval from `t + d` on
          have htail := ih (a := t + d) h.2
            (fun u hu => ⟨h.1 u hu, (hmem u (List.mem_cons_of_mem t hu)).2⟩) (by simp)
          simp only [List.length_cons, Nat.add_sub_cancel, Nat.mul_succ] at htail ⊢
          omega

/-- For every run of the loop in which each iteration reads the clock twice or not at all: in every
window of time, the iterations that start in it put at most 76864 bytes on the SPI bus for every
`REFRESH_TIME` of the window, and once more. -/
theorem sum_frameBytes_le {rs : List TimedRefresh} (hchain : rs.IsChain TimedRefresh.Precedes)
    (hread : ∀ r ∈ rs, r.startRead = r.finishRead)
    (hclock : ∀ r ∈ rs, r.finished / 1000 < 2 ^ 64) (t window : ℕ) :
    ((rs.filter fun r => t ≤ r.startTime ∧ r.startTime ≤ t + window).map
      TimedRefresh.frameBytes).sum ≤ (window / refreshTime + 1) * (4 * 19216) := by
  -- the iterations of the run start `REFRESH_TIME` apart
  let Spaced : TimedRefresh → TimedRefresh → Prop :=
    fun r r' => r.startTime + refreshTime ≤ r'.startTime
  have htrans : Trans Spaced Spaced Spaced :=
    ⟨fun h h' => h.trans ((Nat.le_add_right ..).trans h')⟩
  have hspaced : rs.Pairwise Spaced := List.IsChain.pairwise
    (hchain.imp_of_mem_imp fun r r' hr _ h => h.spaced (hread r hr) (hclock r hr))
  let window' := rs.filter fun r => t ≤ r.startTime ∧ r.startTime ≤ t + window
  have hmem : ∀ u ∈ window'.map TimedRefresh.startTime, t ≤ u ∧ u ≤ t + window := by
    intro u hu
    obtain ⟨r, hr, rfl⟩ := List.mem_map.mp hu
    simpa using (List.mem_filter.mp hr).2
  have hlength : window'.length ≤ window / refreshTime + 1 := by
    by_cases hne : window'.map TimedRefresh.startTime = []
    · rw [List.map_eq_nil_iff.mp hne]
      exact Nat.zero_le _
    · have hle := mul_length_le_of_spaced (List.pairwise_map.mpr (hspaced.filter _)) hmem hne
      rw [List.length_map, Nat.mul_comm] at hle
      have hdiv : window'.length - 1 ≤ window / refreshTime :=
        (Nat.le_div_iff_mul_le (by decide)).mpr (Nat.le_of_add_le_add_left hle)
      exact Nat.sub_le_iff_le_add.mp hdiv
  calc (window'.map TimedRefresh.frameBytes).sum
    _ ≤ (window'.map TimedRefresh.frameBytes).length • (4 * 19216) := by
        apply List.sum_le_card_nsmul
        intro n hn
        obtain ⟨r, -, rfl⟩ := List.mem_map.mp hn
        exact r.frameBytes_le
    _ ≤ (window / refreshTime + 1) * (4 * 19216) := by
        rw [List.length_map, nsmul_eq_mul, Nat.cast_id]
        exact Nat.mul_le_mul_right _ hlength

/-- `sum_frameBytes_le` for two iterations without strings, 60 milliseconds apart. -/
theorem sum_frameBytes_le_sample :
    ∃ rs : List TimedRefresh, rs.map TimedRefresh.started = [70000000, 130000000] ∧
      ((rs.filter fun r => 70000 ≤ r.startTime ∧ r.startTime ≤ 70000 + 60000).map
        TimedRefresh.frameBytes).sum ≤ (60000 / refreshTime + 1) * (4 * 19216) := by
  let c : Controller := { (default : Controller) with workers := Workers.zero }
  obtain ⟨c', es, hran, -⟩ := @workerRefresh_of_packable c (by decide) (fun _ => 0)
  let r : TimedRefresh := ⟨c, _, c', es, hran, 70000000, 71000000, by norm_num, true, true⟩
  let r' : TimedRefresh := ⟨c, _, c', es, hran, 130000000, 131000000, by norm_num, false, false⟩
  have hsleep : r.sleep ≤ refreshTime := (toNat_pause ..).le.trans (Nat.sub_le ..)
  refine ⟨[r, r'], rfl, sum_frameBytes_le ?_ ?_ ?_ 70000 60000⟩
  · rw [List.isChain_pair, TimedRefresh.Precedes]
    simp only [r, r', refreshTime] at hsleep ⊢
    omega
  · intro s hs
    rcases List.mem_pair.mp hs with rfl | rfl <;> rfl
  · intro s hs
    rcases List.mem_pair.mp hs with rfl | rfl <;> simp only [r, r'] <;> norm_num

end PiPixelController
