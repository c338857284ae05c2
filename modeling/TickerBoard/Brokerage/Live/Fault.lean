import TickerBoard.Refusal
import TickerBoard.Web.Status

/-! What can go wrong between the board and a live brokerage. -/
namespace TickerBoard

inductive LiveFault
  | noToken
  | requestFailed (path : String)
  | badStatus (path : String) (status : Nat) (body : String)
  | unreadableBody (path : String)
  | noStreamDetails
  | emptyStreamDetails
  | noAccount
  | noAccountHash
  | noCandles (symbol : String)
  | streamUnreachable
  | closedBeforeLogin
  | loginReadError
  | loginRejected (code : Int) (text : String)
  | streamerGone
  | requestDropped
  | notAnswered
  | unwritten (cause : String)
  | rejected (service command : String) (code : Int) (text : String)
deriving Repr, DecidableEq

namespace LiveFault

def message : LiveFault → String
  | noToken => "live adapter requires an API token (PULSE_API_TOKEN)"
  | requestFailed path => "GET " ++ path ++ " request failed"
  | badStatus path status body =>
    "GET " ++ path ++ " returned " ++ toString status ++ " " ++ Web.reason status ++ ": " ++ body
  | unreadableBody path => "failed to parse " ++ path ++ " response body"
  | noStreamDetails => "userPreference response has no usable streamerInfo"
  | emptyStreamDetails => "streamerInfo list is empty"
  | noAccount => "no brokerage account available"
  | noAccountHash => "account has no hashValue"
  | noCandles symbol => "price history for " ++ symbol ++ " has no candles"
  | streamUnreachable => "failed to connect to streamer WebSocket"
  | closedBeforeLogin => "streamer closed before LOGIN was acknowledged"
  | loginReadError => "streamer read error during LOGIN"
  | loginRejected code text =>
    "streamer LOGIN failed with code " ++ toString code ++ ": " ++ text
  | streamerGone => "streamer task is gone"
  | requestDropped => "streamer task dropped the request"
  | notAnswered => "stream request not answered within 10s"
  | unwritten _ => "failed to write stream command"
  | rejected service command code text =>
    service ++ " " ++ command ++ " rejected with code " ++ toString code ++ ": " ++ text

/-- The causes below the fault; a dropped request was answered by nobody. -/
def causes : LiveFault → List String
  | requestDropped => ["channel closed"]
  | unwritten cause => [cause]
  | _ => []

def fault (e : LiveFault) : Fault := ⟨e.message, e.causes⟩

end LiveFault
end TickerBoard
