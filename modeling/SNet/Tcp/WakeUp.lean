import SNet.Utils.TimerOrder

/-!
# The wake-up of a worker

`EpollWorker::run` gives the time to the next expiry, which `timer_loop` returns, to `add_timer`. There
it becomes `it_interval`; `it_value`, when the descriptor expires first, is set from `delay`, which is a
second. So the worker wakes up in time only for timers that are a second ahead or more
(`armedInTime_iff`).
-/

namespace SNet.Tcp

open Utils

structure Timespec where
  tvSec : Nat
  tvNsec : Nat
  deriving DecidableEq, Repr

structure Itimerspec where
  itInterval : Timespec
  itValue : Timespec
  deriving DecidableEq, Repr

def Timespec.nanoseconds (t : Timespec) : Nat := t.tvSec * 1000000000 + t.tvNsec

namespace EpollWorker

/-- What `add_timer` passes to `timerfd_settime`; `interval` is in microseconds, `delay` in seconds. -/
def addTimer (interval delay : UInt32) : Itimerspec where
  itInterval := ⟨(interval / 1000000).toNat, ((interval % 1000000) * 1000).toNat⟩
  itValue := ⟨delay.toNat, 0⟩

/-- `run` after `timer_loop` has returned `nextExpire`; `delay` has its default. -/
def wakeUp (nextExpire : Int) : Itimerspec := addTimer (UInt32.ofInt nextExpire) 1

end EpollWorker

/-- The descriptor is armed, and expires first within `d` microseconds. -/
structure ArmedInTime (setting : Itimerspec) (d : Int) : Prop where
  interval : setting.itInterval.tvNsec < 1000000000
  value : setting.itValue.tvNsec < 1000000000
  armed : setting.itValue.nanoseconds ≠ 0
  inTime : setting.itValue.nanoseconds ≤ d * 1000

/-- The nanoseconds of any setting are less than a second. -/
theorem EpollWorker.addTimer_valid {interval delay : UInt32} :
    (EpollWorker.addTimer interval delay).itInterval.tvNsec < 1000000000 ∧
      (EpollWorker.addTimer interval delay).itValue.tvNsec < 1000000000 := by
  refine ⟨?_, Nat.zero_lt_succ _⟩
  change ((interval % 1000000) * 1000).toNat < 1000000000
  have hlt : interval.toNat % 1000000 < 1000000 := Nat.mod_lt _ (by decide)
  rw [UInt32.toNat_mul, UInt32.toNat_mod]
  refine Nat.lt_of_le_of_lt (Nat.mod_le _ _) ?_
  change interval.toNat % 1000000 * 1000 < 1000000000
  omega

theorem armedInTime_wakeUp {d nextExpire : Int} :
    ArmedInTime (EpollWorker.wakeUp nextExpire) d ↔ 1000000 ≤ d := by
  have hvalue : (EpollWorker.wakeUp nextExpire).itValue.nanoseconds = 1000000000 := by
    simp only [EpollWorker.wakeUp, EpollWorker.addTimer, Timespec.nanoseconds, UInt32.toNat_one]
  obtain ⟨hinterval, hnsec⟩ := @EpollWorker.addTimer_valid (UInt32.ofInt nextExpire) 1
  constructor
  · intro h
    have hle := h.inTime
    rw [hvalue] at hle
    omega
  · intro h
    refine ⟨hinterval, hnsec, ?_, ?_⟩
    · rw [hvalue]
      decide
    · rw [hvalue]
      omega

variable {A : TimerHeaps} {as : List RunAction} {now : Int}

/-- **The worker wakes up in time** if and only if the next expiry is a second ahead or more. -/
theorem armedInTime_iff (h : (timerRun A).Runs {} as)
    (hend : (timerRun A).enabled ((timerRun A).exec {} as) (.finish now))
    (hne : ((timerRun A).exec {} as).timer.heapData ≠ #[]) :
    ∃ n ∈ ((timerRun A).exec {} as).timer.heapData,
      (∀ m ∈ ((timerRun A).exec {} as).timer.heapData,
        ((timerRun A).exec {} as).timer.expire n ≤ ((timerRun A).exec {} as).timer.expire m) ∧
      ∃ d, d = ((timerRun A).exec {} as).timer.expire n - ((timerRun A).exec {} as).clock ∧ 0 < d ∧
        ((timerRun A).exec {} as).ending = some (.returns d) ∧
        (ArmedInTime (EpollWorker.wakeUp d) d ↔ 1000000 ≤ d) := by
  obtain ⟨r, hr, hpos, -, ⟨hnil, -⟩ | ⟨n, hn, rfl, hleast⟩⟩ :=
    ((ordered_init.runs h).inOrder hend).deadline now rfl
  · exact absurd hnil hne
  · exact ⟨n, hn, hleast, _, rfl, hpos, hr, armedInTime_wakeUp⟩

/-- A timer is five microseconds ahead when `timer_loop` returns. -/
def fiveAhead : List RunAction := [.start 0 10 true, .timerLoop 5]

theorem armedInTime_iff_five :
    ∃ n ∈ ((timerRun .sifting).exec {} fiveAhead).timer.heapData,
      (∀ m ∈ ((timerRun .sifting).exec {} fiveAhead).timer.heapData,
        ((timerRun .sifting).exec {} fiveAhead).timer.expire n ≤
          ((timerRun .sifting).exec {} fiveAhead).timer.expire m) ∧
      ∃ d, d = ((timerRun .sifting).exec {} fiveAhead).timer.expire n -
          ((timerRun .sifting).exec {} fiveAhead).clock ∧ 0 < d ∧
        ((timerRun .sifting).exec {} fiveAhead).ending = some (.returns d) ∧
        (ArmedInTime (EpollWorker.wakeUp d) d ↔ 1000000 ≤ d) :=
  @armedInTime_iff .sifting fiveAhead 5 (by decide) (by decide) (by decide)

theorem woken_late : ¬ ∀ as now d, (timerRun .sifting).Runs {} as →
    (timerRun .sifting).enabled ((timerRun .sifting).exec {} as) (.finish now) →
      ((timerRun .sifting).exec {} as).timer.heapData ≠ #[] →
        ((timerRun .sifting).exec {} as).ending = some (.returns d) →
          ArmedInTime (EpollWorker.wakeUp d) d := by
  intro h
  have hlate := h fiveAhead 5 5 (by decide) (by decide) (by decide) (by decide)
  exact absurd (armedInTime_wakeUp.1 hlate) (by decide)

end SNet.Tcp
