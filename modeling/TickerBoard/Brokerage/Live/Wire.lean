import TickerBoard.Brokerage.Basic
import TickerBoard.Brokerage.Live.Fault
import TickerBoard.Web.Query

/-! The messages of a live brokerage.

Commands on the stream name a service, carry an identifier of their own and are
answered by a response that bears it; a response without a code counts as
rejected. Data comes in entries by service, in which fields are numbered. What
cannot be read is passed over, item by item. -/
namespace TickerBoard.Live

/-- Where the stream is and how a client names itself there. -/
structure StreamDetails where
  socketUrl : String
  customerId : String
  correlationId : String
  channel : String
  functionId : String
deriving Repr, DecidableEq

namespace StreamDetails

def fieldNames : List String :=
  ["streamerSocketUrl", "schwabClientCustomerId", "schwabClientCorrelId", "schwabClientChannel",
    "schwabClientFunctionId"]

/-- The details in a record, or in a list of its fields. -/
def ofJson? (j : Json) : Option StreamDetails := do
  let fields ← match j with
    | .record _ => fieldNames.mapM fun name => (j.get name).text?
    | .list items => items.mapM Json.text?
    | _ => none
  match fields with
  | [url, customer, correlation, channel, function] =>
    pure ⟨url, customer, correlation, channel, function⟩
  | _ => none

end StreamDetails

/-! ### Commands -/

def serviceOf : StreamKind → String
  | .chart => "CHART_EQUITY"
  | .quote => "LEVELONE_EQUITIES"

def fieldsOf : StreamKind → String
  | .chart => "0,1,2,3,4,5,6,7"
  | .quote => "0,1,2,3"

def commandOf : StreamOp → String
  | .opening => "SUBS"
  | .add => "ADD"
  | .remove => "UNSUBS"

def command (d : StreamDetails) (service name : String) (id : Nat)
    (parameters : List (String × Json)) : Json :=
  .record [("service", .text service), ("command", .text name), ("requestid", .int id),
    ("SchwabClientCustomerId", .text d.customerId),
    ("SchwabClientCorrelId", .text d.correlationId), ("parameters", .record parameters)]

/-- The command that a session begins with; its identifier is zero. -/
def login (d : StreamDetails) (token : String) : Json :=
  command d "ADMIN" "LOGIN" 0
    [("Authorization", .text token), ("SchwabClientChannel", .text d.channel),
      ("SchwabClientFunctionId", .text d.functionId)]

def requestCommand (d : StreamDetails) (r : StreamRequest) (id : Nat) : Json :=
  command d (serviceOf r.kind) (commandOf r.op) id
    [("keys", .text (",".intercalate r.symbols)), ("fields", .text (fieldsOf r.kind))]

/-! ### Responses -/

structure Response where
  id : Nat
  service : String
  command : String
  code : Int
  text : String
deriving Repr, DecidableEq

namespace Response

/-- An identifier that is written as a text. -/
def idOfText? (s : String) : Option Nat :=
  let digits := match s.toList with
    | '+' :: rest => rest
    | cs => cs
  match Calendar.takeNumeral digits with
  | some (n, []) => if n < Word.size 64 then some n else none
  | _ => none

def id? (j : Json) : Option Nat :=
  match j with
  | .text s => idOfText? s
  | j => j.nat?

def ofJson? (j : Json) : Option Response := do
  let id ← id? (j.get "requestid")
  let content := j.get "content"
  let textOf (j : Json) : String := j.text?.getD ""
  pure ⟨id, textOf (j.get "service"), textOf (j.get "command"),
    ((content.get "code").int?).getD (-1), textOf (content.get "msg")⟩

/-- The responses of a frame. -/
def ofFrame (frame : Json) : List Response :=
  (((frame.get "response").list?).getD []).filterMap ofJson?

/-- What a response means for the command it answers. -/
def outcome (r : Response) : Except LiveFault Unit :=
  if r.code = 0 then .ok () else .error (.rejected r.service r.command r.code r.text)

end Response

/-! ### Data -/

/-- A double as a count: its whole part, within 64 bits. -/
def count (x : Float) : Nat := x.toUInt64.toNat

/-- A bar from the fields of these names. -/
def barOf? (symbol : String) (time opening high low closing volume : String) (j : Json) :
    Option (Bar Float) := do
  pure {
    symbol
    time := ← ((j.get time).int?).bind Instant.ofMs?
    opening := ← (j.get opening).float?
    high := ← (j.get high).float?
    low := ← (j.get low).float?
    closing := ← (j.get closing).float?
    volume := count (← (j.get volume).float?) }

def chartBar? (j : Json) : Option (Bar Float) := do
  barOf? (← (j.get "key").text?) "7" "2" "3" "4" "5" "6" j

def quote? (j : Json) : Option Quote := do
  pure ⟨← (j.get "key").text?, (j.get "1").float?, (j.get "2").float?, (j.get "3").float?⟩

/-- What the entries of one service hold. -/
def contents {α : Type} (kind : StreamKind) (read : Json → Option α) (data : List Json) : List α :=
  (data.filter fun e => (e.get "service").text? == some (serviceOf kind)).flatMap fun e =>
    (((e.get "content").list?).getD []).filterMap read

/-- The batches of a frame's data: its bars, then its quotes. -/
def eventsOf (data : Json) : List StreamEvent :=
  let entries := data.list?.getD []
  let bars := contents .chart chartBar? entries
  let quotes := contents .quote quote? entries
  (if bars.isEmpty then [] else [.bars bars]) ++ (if quotes.isEmpty then [] else [.quotes quotes])

/-! ### Answers to questions -/

def candle? (symbol : String) (j : Json) : Option (Bar Float) :=
  barOf? symbol "datetime" "open" "high" "low" "close" "volume" j

def candles (symbol : String) (body : Json) : Except LiveFault (List (Bar Float)) :=
  match (body.get "candles").list? with
  | none => .error (.noCandles symbol)
  | some items => .ok (items.filterMap (candle? symbol))

def contract? (expiration : Day) (j : Json) : Option OptionContract := do
  let number (name : String) : Float := ((j.get name).float?).getD 0
  pure {
    symbol := Text.trim (← (j.get "symbol").text?)
    strike := ← (j.get "strikePrice").float?
    expiration
    bid := number "bid"
    ask := number "ask"
    last := number "last"
    volume := ((j.get "totalVolume").nat?).getD 0
    openInterest := ((j.get "openInterest").nat?).getD 0
    -- Larger values mark a missing one.
    delta := ((j.get "delta").float?).filter fun d => d.abs ≤ 1.0 }

/-- Adds the contracts of an expiry, which are listed by strike. -/
def addExpiry (t : Table Day (List OptionContract)) (e : String × Json) :
    Table Day (List OptionContract) :=
  let date := String.ofList (e.1.toList.takeWhile (· ≠ ':'))
  match Day.ofStrictText? date, e.2.record? with
  | some day, some strikes =>
    let listed := strikes.flatMap fun (_, contracts) => contracts.list?.getD []
    t.upsert day fun known => known.getD [] ++ listed.filterMap (contract? day)
  | _, _ => t

/-- The contracts of one side by expiry. -/
def expiries (side : Json) : Table Day (List OptionContract) :=
  (side.record?.getD []).foldl addExpiry .empty

end TickerBoard.Live
