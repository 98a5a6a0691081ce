import NoteVerse.Lib.Transition
import NoteVerse.Practice.BrowserClock
import NoteVerse.Practice.ServerClock

/-!
# The two clocks agree

The clock of the browser and the clock of the server answer the same calls in
the same way, since both are the clock of the scope (`clocks_agree`).
-/

namespace NoteVerse.Practice

open Transition

/-- A stopwatch that both clocks are. -/
def SameWatch (server : ClockConfig) (browser : BrowserConfig) (T : ℚ) (clock : PerformanceClock)
    (clock' : BrowserClock) : Prop :=
  ∃ watch, PerformanceClock.Shows server T clock watch ∧ BrowserClock.Shows browser T clock' watch

/-- Both accept a call, with the same report, or both refuse it. -/
def SameAnswer (answer : Except String PerformanceClockSnapshot)
    (answer' : Except String BrowserClockSnapshot) : Prop :=
  answer.toOption.map PerformanceClockSnapshot.report =
    answer'.toOption.map BrowserClockSnapshot.report

variable {server : ClockConfig} {browser : BrowserConfig} {roundBeat : ℚ → ℚ} {T nowMs : ℚ}
  {clock : PerformanceClock} {clock' : BrowserClock}

theorem SameWatch.call (hconfig : browser.toClockConfig = server)
    (h : SameWatch server browser T clock clock') (hT : T ≤ nowMs) (call : ClockCall) :
    SameWatch server browser nowMs (clock.call server roundBeat nowMs call).1
        (clock'.call browser roundBeat nowMs call).1 ∧
      SameAnswer (clock.call server roundBeat nowMs call).2
        (clock'.call browser roundBeat nowMs call).2 := by
  obtain ⟨watch, hserver, hbrowser⟩ := h
  obtain ⟨hserver, hreport⟩ := PerformanceClock.call_answers roundBeat hserver hT call
  obtain ⟨hbrowser, hreport'⟩ := BrowserClock.call_answers roundBeat hbrowser hT call
  rw [hconfig] at hbrowser hreport'
  exact ⟨⟨_, hserver, hbrowser⟩, hreport.trans hreport'.symm⟩

theorem answers_agree (roundBeat : ℚ → ℚ) (hconfig : browser.toClockConfig = server)
    {calls : List TimedCall} (hsorted : InOrder calls) :
    List.Forall₂ SameAnswer
      (answers (fun clock call => PerformanceClock.call server roundBeat clock call.2 call.1)
        .initial calls)
      (answers (fun clock call => BrowserClock.call browser roundBeat clock call.2 call.1)
        .initial calls) := by
  cases calls with
  | nil => exact .nil
  | cons first calls =>
    obtain ⟨hfirst, -⟩ := List.pairwise_cons.mp hsorted
    refine forall₂_answers Prod.snd (R := SameWatch server browser) ?_ (i := first.2)
      ⟨.unstarted, .unstarted, .unstarted⟩ ?_ hsorted
    · intro T clock clock' call hT h
      exact h.call hconfig hT call.1
    · intro call hcall
      rcases List.mem_cons.mp hcall with rfl | hcall
      · exact le_rfl
      · exact hfirst call hcall

/-- For the same timeline, scope, speed and count-in, and calls at times that do
not go back, the clocks accept the same calls and report the same. -/
theorem clocks_agree (roundBeat : ℚ → ℚ) (timeline : PerformanceTimeline)
    (scope : ResolvedPerformanceScope) {speedRatio countInBeats countInPulses : ℚ}
    (hspeed : 0 < speedRatio) (hcountIn : 0 ≤ countInBeats) (hpulses : 0 ≤ countInPulses)
    (calls : List TimedCall) (hsorted : InOrder calls) :
    ∃ server browser,
      PerformanceClock.configure timeline scope speedRatio countInBeats countInPulses =
        .ok server ∧
      BrowserClock.configure timeline scope speedRatio countInBeats countInPulses =
        .ok browser ∧
      List.Forall₂ SameAnswer
        (answers (fun clock call => PerformanceClock.call server roundBeat clock call.2 call.1)
          .initial calls)
        (answers (fun clock call => BrowserClock.call browser roundBeat clock call.2 call.1)
          .initial calls) := by
  let browser : BrowserConfig := {
    timeline, scope, speedRatio, countInBeats, countInPulses
    speed_pos := hspeed
    countInMs := beatsToMs countInBeats (timeline.bpmAtBeat scope.startBeat) / speedRatio }
  refine ⟨browser.toClockConfig, browser, ?_, ?_, answers_agree roundBeat rfl hsorted⟩
  · unfold PerformanceClock.configure
    rw [dif_neg hspeed.not_ge, if_neg hcountIn.not_gt, if_neg hpulses.not_gt]
    rfl
  · unfold BrowserClock.configure
    rw [dif_neg hspeed.not_ge]

/-- A performance at 120 beats a minute, with a pause in the count-in and one
after it. -/
theorem clocks_agree_paused :
    ∃ server browser,
      PerformanceClock.configure ⟨8, [⟨0, 8, 0, 120, by norm_num⟩]⟩ ⟨none, none, 0, 8, 0, 4000⟩
        1 4 4 = .ok server ∧
      BrowserClock.configure ⟨8, [⟨0, 8, 0, 120, by norm_num⟩]⟩ ⟨none, none, 0, 8, 0, 4000⟩
        1 4 4 = .ok browser ∧
      List.Forall₂ SameAnswer
        (answers (fun clock call => PerformanceClock.call server id clock call.2 call.1) .initial
          [(.start, 0), (.pause, 500), (.resume, 800), (.pause, 3000), (.resume, 5000),
            (.snapshot, 9000)])
        (answers (fun clock call => BrowserClock.call browser id clock call.2 call.1) .initial
          [(.start, 0), (.pause, 500), (.resume, 800), (.pause, 3000), (.resume, 5000),
            (.snapshot, 9000)]) :=
  clocks_agree id _ _ (by norm_num) (by norm_num) (by norm_num) _ (by decide)

end NoteVerse.Practice
