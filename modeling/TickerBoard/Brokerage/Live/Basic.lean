import TickerBoard.Brokerage.Live.Streamer
import TickerBoard.Settings.Basic

/-! The live brokerage.

Questions go to the brokerage's web interface, signed with the token; streams
go over one session. To connect, the board asks where the stream is and for the
account, and logs in. What the network answers is a value of its own, so that
everything here is a function of it. -/
namespace TickerBoard

namespace Live

/-- A question to the web interface. -/
structure Question where
  url : String
  query : List (String × String)
  token : String
deriving Repr, DecidableEq

structure Answer where
  status : Nat
  body : String
deriving Repr, DecidableEq

end Live

/-- What lies beyond the board. -/
structure Network where
  /-- The answer to a question, unless the host cannot be reached. -/
  answer : Live.Question → Option Live.Answer
  /-- What a stream server sends after the login, unless it cannot be reached. -/
  connect : String → Option (List Frame)
  /-- What the server sends after a command. -/
  react : Json → List Frame

namespace Network

/-- A network in which no host can be reached. -/
def unreachable : Network := ⟨fun _ => none, fun _ => none, fun _ => []⟩

end Network

structure LiveBrokerage where
  network : Network
  baseUrl : String
  token : String
  extendedHours : Bool
  account : Account
  streamer : Streamer
  /-- The batches that wait to be read. -/
  events : List StreamEvent

namespace Live

/-- How a client presents itself to the web interface. -/
structure Client where
  network : Network
  baseUrl : String
  token : String

/-- A text that may stand in a request header. -/
def isHeaderText (s : String) : Bool :=
  s.toList.all fun c => (0x20 ≤ c.toNat && c.toNat ≠ 0x7f) || c == '\t'

def withoutTrailingSlashes (s : String) : String :=
  String.ofList ((s.toList.reverse.dropWhile (· == '/')).reverse)

/-- Asks the web interface for a JSON value. -/
def Client.get (c : Client) (path : String) (query : List (String × String)) :
    Except LiveFault Json :=
  if !isHeaderText c.token then .error (.requestFailed path)
  else
    match c.network.answer ⟨c.baseUrl ++ path, query, "Bearer " ++ c.token⟩ with
    | none => .error (.requestFailed path)
    | some reply =>
      if !Web.isSuccess reply.status then .error (.badStatus path reply.status reply.body)
      else
        match Json.ofText? reply.body with
        | some j => .ok j
        | none => .error (.unreadableBody path)

/-- Where the stream is: the last of the places offered. -/
def Client.streamDetails (c : Client) : Except LiveFault StreamDetails := do
  let body ← c.get "/trader/v1/userPreference" []
  match ((body.get "streamerInfo").list?).bind (·.mapM StreamDetails.ofJson?) with
  | none => throw .noStreamDetails
  | some places =>
    match places.getLast? with
    | some details => pure details
    | none => throw .emptyStreamDetails

/-- The first account and its balance; a balance that is not told counts as none. -/
def Client.account (c : Client) : Except LiveFault Account := do
  let numbers ← c.get "/trader/v1/accounts/accountNumbers" []
  match (numbers.list?.getD []).head? with
  | none => throw .noAccount
  | some first =>
    match (first.get "hashValue").text? with
    | none => throw .noAccountHash
    | some hash =>
      let details ← c.get ("/trader/v1/accounts/" ++ hash) []
      let balances := (details.get "securitiesAccount").get "currentBalances"
      pure ⟨((first.get "accountNumber").text?).getD "",
        ((balances.get "cashAvailableForTrading").float?).getD 0⟩

end Live

namespace LiveBrokerage
open Live

/-- Connects with the settings: asks for stream and account, then logs in. -/
def connect (network : Network) (s : LiveSettings) : Except LiveFault LiveBrokerage := do
  if s.token = "" then throw .noToken
  let baseUrl := withoutTrailingSlashes s.baseUrl
  let client : Client := ⟨network, baseUrl, s.token⟩
  let details ← client.streamDetails
  let account ← client.account
  match network.connect details.socketUrl with
  | none => throw .streamUnreachable
  | some frames =>
    let rest ← Streamer.awaitLogin frames
    let (streamer, _, events) := (Streamer.start details).receiveAll rest
    pure ⟨network, baseUrl, s.token, s.extendedHours, account, streamer, events⟩

def client (b : LiveBrokerage) : Client := ⟨b.network, b.baseUrl, b.token⟩

/-! ### Questions -/

def history (b : LiveBrokerage) (symbol : String) (since now : Instant) :
    Except LiveFault (List (Bar Float)) := do
  let body ← b.client.get "/marketdata/v1/pricehistory"
    [("symbol", Text.upper symbol), ("frequencyType", "minute"), ("frequency", "1"),
      ("startDate", toString since.ms), ("endDate", toString now.ms),
      ("needExtendedHoursData", toString b.extendedHours)]
  candles symbol body

/-- The ticker of a query: itself if it is among the matches, else the first match. -/
def resolve (b : LiveBrokerage) (query : String) : Except LiveFault (Option String) := do
  let wanted := Text.upper (Text.trim query)
  if wanted = "" then return none
  let body ← b.client.get "/marketdata/v1/instruments"
    [("symbol", wanted), ("projection", "symbol-search")]
  let items := ((body.get "instruments").list?).getD []
  let symbols := items.filterMap fun i => (i.get "symbol").text?
  pure (if symbols.contains wanted then some wanted else symbols.head?)

def chains (b : LiveBrokerage) (q : OptionsQuery) : Except LiveFault ExpiryChains := do
  let body ← b.client.get "/marketdata/v1/chains"
    [("symbol", q.symbol), ("contractType", "ALL"), ("strikeCount", toString q.strikeCount),
      ("fromDate", q.first.text), ("toDate", q.last.text)]
  pure ⟨expiries (body.get "callExpDateMap"), expiries (body.get "putExpDateMap")⟩

/-- Sends a stream request and reads on until it is settled. -/
def request (b : LiveBrokerage) (r : StreamRequest) : LiveBrokerage × Except LiveFault Unit :=
  match b.streamer.send r with
  | (_, .error e) => (b, .error e)
  | (streamer, .ok (id, message)) =>
    let (streamer, settled, events) := streamer.receiveAll (b.network.react message)
    ({ b with streamer, events := b.events ++ events },
      (settled.lookup id).getD (.error .notAnswered))

instance : Brokerage LiveBrokerage where
  request b r := let (b, result) := b.request r; (b, result.mapError LiveFault.fault)
  account b := b.account
  resolve b query := (b, (b.resolve query).mapError LiveFault.fault)
  history b symbol since now := (b, (b.history symbol since now).mapError LiveFault.fault)
  chains b q := (b, (b.chains q).mapError LiveFault.fault)

end LiveBrokerage
end TickerBoard
