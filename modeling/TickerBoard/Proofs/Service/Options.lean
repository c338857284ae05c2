import TickerBoard.Brokerage.Simulated
import TickerBoard.Proofs.Calendar.TradingDay
import TickerBoard.Proofs.Market.Expiries
import TickerBoard.Proofs.Service.Requests
import TickerBoard.Storage.Memory

/-! Options chains that are asked of the service.

On the simulated brokerage a request for a chain is answered from what is stored
under the ticker: the answer is that of the days in the window, whichever of its
ends the caller left open (`optionsChain_answer`). The window asked for by default
is worked out for every request, also for one that needs neither end of it, so
on the last days of the calendar, which have no Friday after them, no request
has a result. -/
namespace TickerBoard.Service
open OptionsQuery

/-- A query with a character that is not blank has a ticker. -/
theorem ticker_ne_empty {query : String} (named : ∃ c ∈ query.toList, Text.isBlank c = false) :
    Text.upper (Text.trim query) ≠ "" := by
  obtain ⟨c, listed, kept⟩ := named
  exact Text.upper_ne_empty (List.ne_nil_of_mem (Text.mem_trim kept listed))

variable {σ : Type}

/-- What a request comes to once its day is known. -/
theorem carryOut_optionsChain (s : Service σ SimulatedBrokerage) {now : Instant} {query : String} {today : Day}
    (named : ∃ c ∈ query.toList, Text.isBlank c = false) (dated : s.rules.clock.day? now = some today)
    (strikeCount : Option Nat) (first last : Option Day) :
    s.carryOut (optionsChain now query strikeCount first last) =
      match defaultWindow? today with
      | none => (.error .outsideCalendar, s)
      | some window =>
        ((((s.brokerage.chains.findD (Text.upper (Text.trim query)) .empty).within (first.getD window.1)
          (last.getD window.2)).single (Text.upper (Text.trim query))).mapError .refused, s) := by
  rw [optionsChain]
  simp only [if_neg (ticker_ne_empty named), carryOut_bind, carryOut_get, carryOut_dated, dated, Failure.inCalendar]
  cases defaultWindow? today with
  | none => rfl
  | some window =>
    simp only [carryOut_ask, Brokerage.chains, SimulatedBrokerage.chainsFor, mapError_ok]
    cases ((s.brokerage.chains.findD (Text.upper (Text.trim query)) .empty).within (first.getD window.1)
      (last.getD window.2)).single (Text.upper (Text.trim query)) <;> rfl

/-- On any day but the last five of the calendar, a request is answered for the days of its
window; on those five, no request has a result. Nothing changes in either case. -/
theorem optionsChain_answer (s : Service σ SimulatedBrokerage) (now : Instant) (query : String) (today : Day)
    (named : ∃ c ∈ query.toList, Text.isBlank c = false) (dated : s.rules.clock.day? now = some today)
    (ordered : (s.brokerage.chains.findD (Text.upper (Text.trim query)) .empty).Ordered)
    (strikeCount : Option Nat) (first last : Option Day) :
    (today.number + 5 ≤ Day.last.number →
      ∃ defaultFirst defaultLast result, IsDefaultWindow today defaultFirst defaultLast ∧
        (s.brokerage.chains.findD (Text.upper (Text.trim query)) .empty).Answer (Text.upper (Text.trim query))
          (first.getD defaultFirst) (last.getD defaultLast) result ∧
        s.carryOut (optionsChain now query strikeCount first last) = (result.mapError .refused, s)) ∧
    (Day.last.number < today.number + 5 →
      s.carryOut (optionsChain now query strikeCount first last) = (.error .outsideCalendar, s)) := by
  have carried := carryOut_optionsChain s named dated strikeCount first last
  have ends := defaultWindow?_eq_none (SessionClock.inCalendar_of_day? dated)
  constructor
  · intro early
    cases window : defaultWindow? today with
    | none => exact absurd (ends.mp window) (by omega)
    | some w =>
      rw [window] at carried
      exact ⟨w.1, w.2, _, isDefaultWindow_of_eq_some window, ExpiryChains.answer_single ordered, carried⟩
  · intro late
    rw [ends.mpr late] at carried
    exact carried

section Stored

def friday : Day := ⟨20245⟩

def contract (strike : Float) : OptionContract := ⟨"XYZ", strike, friday, 1, 1, 1, 10, 100, none⟩

/-- Calls and puts that expire on one Friday; calls are listed for the Thursday before, but
there are none. -/
def storedChains : ExpiryChains :=
  ⟨⟨[(⟨20244⟩, []), (friday, [contract 105, contract 100])]⟩, ⟨[(friday, [contract 95])]⟩⟩

/-- A service by universal time whose brokerage has these contracts. -/
def storedService : Service MemoryStore SimulatedBrokerage where
  rules := ⟨[], ⟨14, .standard, ⟨0⟩⟩, 60, .standard, 7, 14⟩
  isRunning := true
  reader := none
  desk := .empty
  session := .start
  store := .empty
  brokerage := { SimulatedBrokerage.ofAccount ⟨"SIM", 0⟩ with chains := ⟨[("XYZ", storedChains)]⟩ }
  audience := .ofCapacity 4
  queue := ⟨4, []⟩

theorem ticker_stored : Text.upper (Text.trim " xyz ") = "XYZ" := by decide +kernel

theorem ordered_storedChains : storedChains.Ordered where
  calls := List.pairwise_pair.mpr (by decide)
  puts := List.pairwise_singleton ..

theorem stored_eq : storedService.brokerage.chains.findD "XYZ" .empty = storedChains := rfl

/-- On the Monday before, for all days but the Thursday. -/
theorem optionsChain_answer_monday :
    ∃ defaultFirst defaultLast result, IsDefaultWindow ⟨20241⟩ defaultFirst defaultLast ∧
      storedChains.Answer "XYZ" defaultFirst defaultLast result ∧
      storedService.carryOut (optionsChain ⟨1748822400000⟩ " xyz " none none none) =
        (result.mapError .refused, storedService) := by
  have answered := (optionsChain_answer storedService ⟨1748822400000⟩ " xyz " ⟨20241⟩ ⟨'x', by decide, by decide⟩ rfl
    (by rw [ticker_stored, stored_eq]; exact ordered_storedChains) none none none).1 (by decide)
  rwa [ticker_stored, stored_eq] at answered

/-- At the end of the calendar, a request has no result although its window has a matched day
and its ends are both given. -/
theorem optionsChain_lost_at_end :
    storedService.rules.clock.day? Instant.last = some Day.last ∧
      (∃ day, day.Between friday friday ∧
        (storedService.brokerage.chains.findD (Text.upper (Text.trim " xyz ")) .empty).Matched day) ∧
      storedService.carryOut (optionsChain Instant.last " xyz " none (some friday) (some friday)) =
        (.error .outsideCalendar, storedService) := by
  have dated : storedService.rules.clock.day? Instant.last = some Day.last := rfl
  refine ⟨dated, ⟨friday, by decide, ?_⟩, ?_⟩
  · rw [ticker_stored, stored_eq]
    exact ⟨List.cons_ne_nil _ _, List.cons_ne_nil _ _⟩
  · have late : defaultWindow? Day.last = none := (defaultWindow?_eq_none (by decide)).mpr (by decide)
    rw [carryOut_optionsChain storedService ⟨'x', by decide, by decide⟩ dated, late]

end Stored

end TickerBoard.Service
