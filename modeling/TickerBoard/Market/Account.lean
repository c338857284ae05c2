import TickerBoard.Json.Value

/-! The brokerage account that every viewer is shown on connecting. -/
namespace TickerBoard

structure Account where
  number : String
  balance : Float
deriving Repr, DecidableEq

def Account.json (a : Account) : Json :=
  .record [("number", .text a.number), ("balance", .float a.balance)]

end TickerBoard
