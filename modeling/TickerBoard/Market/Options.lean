import TickerBoard.Scalar
import TickerBoard.Table
import TickerBoard.Json.Decode
import TickerBoard.Refusal

/-! Options chains.

A brokerage lists contracts by expiry, calls and puts apart, for every expiry
in the window asked for. What is answered is one expiry: the earliest at which
both sides have a contract, each side in rising order of the strikes. If the
caller gives no window, it starts two days from today and ends on the first
Friday from then on. -/
namespace TickerBoard

structure OptionContract where
  symbol : String
  strike : Float
  expiration : Day
  bid : Float
  ask : Float
  last : Float
  volume : Nat
  openInterest : Nat
  delta : Option Float
deriving Repr, DecidableEq

namespace OptionContract

def json (c : OptionContract) : Json :=
  .record [("symbol", .text c.symbol), ("strike", .float c.strike),
    ("expiration", .text c.expiration.text), ("bid", .float c.bid), ("ask", .float c.ask),
    ("last", .float c.last), ("volume", .int c.volume), ("open_interest", .int c.openInterest),
    ("delta", .optional .float c.delta)]

open Json.Written in
def ofWritten? (w : Json.Written) : Option OptionContract := do
  let [symbol, strike, expiration, bid, ask, last, volume, openInterest, delta] ←
    w.fields? ["symbol", "strike", "expiration", "bid", "ask", "last", "volume", "open_interest",
      "delta"] | none
  pure {
    symbol := ← needed text? symbol
    strike := ← needed float? strike
    expiration := ← needed day? expiration
    bid := ← orElse float? 0 bid
    ask := ← orElse float? 0 ask
    last := ← orElse float? 0 last
    volume := ← orElse (nat? 64) 0 volume
    openInterest := ← orElse (nat? 64) 0 openInterest
    delta := ← orElse (optional? float?) none delta }

end OptionContract

/-- What is asked of a brokerage. -/
structure OptionsQuery where
  symbol : String
  strikeCount : Nat
  first : Day
  last : Day
deriving Repr, DecidableEq

/-- The contracts of each side by expiry. -/
structure ExpiryChains where
  calls : Table Day (List OptionContract)
  puts : Table Day (List OptionContract)
deriving Repr, DecidableEq

/-- The contracts of one expiry. -/
structure OptionsChain where
  symbol : String
  expiration : Day
  calls : List OptionContract
  puts : List OptionContract
deriving Repr, DecidableEq

namespace ExpiryChains

def empty : ExpiryChains := ⟨.empty, .empty⟩

/-- The expiries from `first` to `last`. -/
def within (c : ExpiryChains) (first last : Day) : ExpiryChains :=
  let inside (day : Day) (_ : List OptionContract) : Bool :=
    first.number ≤ day.number && day.number ≤ last.number
  ⟨c.calls.filter inside, c.puts.filter inside⟩

/-- Contracts in rising order of the strikes. -/
def byStrike (contracts : List OptionContract) : List OptionContract :=
  contracts.mergeSort fun a b => Scalar.precedes a.strike b.strike

/-- The expiry has a contract on both sides. -/
def isMatched (c : ExpiryChains) (day : Day) : Bool :=
  !(c.calls.findD day []).isEmpty && !(c.puts.findD day []).isEmpty

/-- The earliest expiry with contracts on both sides. -/
def single (c : ExpiryChains) (symbol : String) : Except Refusal OptionsChain :=
  if c.calls.values.all List.isEmpty then .error (.emptyChain symbol "calls")
  else if c.puts.values.all List.isEmpty then .error (.emptyChain symbol "puts")
  else
    match c.calls.keys.find? c.isMatched with
    | none => .error (.emptyChain symbol "matching expiry")
    | some day =>
      .ok ⟨symbol, day, byStrike (c.calls.findD day []), byStrike (c.puts.findD day [])⟩

end ExpiryChains

namespace OptionsQuery

/-- The first Friday from a day on, if the calendar has it. -/
def fridayFrom? (day : Day) : Option Day := day.plus? ((4 - (day.weekday : Int)) % 7)

/-- First and last day of the window that is asked for by default. -/
def defaultWindow? (today : Day) : Option (Day × Day) := do
  let first ← today.plus? 2
  pure (first, ← fridayFrom? first)

example : defaultWindow? (Day.ofCivil ⟨2025, 6, 5⟩) =
    some (Day.ofCivil ⟨2025, 6, 7⟩, Day.ofCivil ⟨2025, 6, 13⟩) := by decide

end OptionsQuery

def OptionsChain.json (c : OptionsChain) : Json :=
  .record [("symbol", .text c.symbol), ("expiration", .text c.expiration.text),
    ("calls", .listOf OptionContract.json c.calls), ("puts", .listOf OptionContract.json c.puts)]

end TickerBoard
