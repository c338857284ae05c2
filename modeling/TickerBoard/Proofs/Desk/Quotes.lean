import Mathlib.Data.List.Infix
import TickerBoard.Proofs.Desk.Run

/-! What a desk shows of quotes.

The tape of a symbol is what it has been told of quotes since it was installed: the
updates of its own that came while its quotes were listened to (`Tape.next`). A
refused installation and a teardown that fails leave the tape as it is, an
installation starts a new one, and a teardown that succeeds ends it. Whatever else
happens, the book of a symbol is its tape summed up, field by field what was carried
last, and every quote that is shown is the tape summed up to the update at hand
(`quotes_follow_tape`). -/
namespace TickerBoard

/-! ### Updates summed up -/

namespace Quote

/-- The price that the last update with a price in the field carries. -/
def lastCarried (field : Quote → Option Float) (updates : List Quote) : Option Float :=
  (updates.filterMap field).getLast?

/-- The quote of a symbol with each field as it was carried last. -/
def summary (symbol : String) (updates : List Quote) : Quote where
  symbol := symbol
  bid := lastCarried (·.bid) updates
  ask := lastCarried (·.ask) updates
  last := lastCarried (·.last) updates

theorem lastCarried_concat (field : Quote → Option Float) (updates : List Quote) (u : Quote) :
    lastCarried field (updates ++ [u]) = (field u <|> lastCarried field updates) := by
  rw [lastCarried, List.filterMap_append, List.getLast?_append]
  cases carried : field u <;> simp [lastCarried, carried]

theorem merge_summary (symbol : String) (updates : List Quote) (u : Quote) :
    (summary symbol updates).merge u = summary symbol (updates ++ [u]) := by
  simp only [merge, summary, lastCarried_concat]

/-- The quote of a symbol after each of the updates that follow the ones known. -/
def summaries (symbol : String) (known updates : List Quote) : List Quote :=
  updates.inits.tail.map fun first => summary symbol (known ++ first)

@[simp] theorem summaries_nil (symbol : String) (known : List Quote) : summaries symbol known [] = [] := rfl

theorem summaries_cons (symbol : String) (known : List Quote) (u : Quote) (rest : List Quote) :
    summaries symbol known (u :: rest) =
      summary symbol (known ++ [u]) :: summaries symbol (known ++ [u]) rest := by
  have starts : rest.inits = [] :: rest.inits.tail := by cases rest <;> rfl
  rw [summaries, List.inits_cons, List.tail_cons, List.map_map, starts]
  simp [summaries, Function.comp_def]

end Quote

/-- The book of a symbol after some updates. -/
def TopOfBook.ofUpdates (symbol : String) (updates : List Quote) : TopOfBook :=
  ⟨if updates = [] then none else some (.summary symbol updates)⟩

theorem TopOfBook.view_ofUpdates {symbol : String} {u : Quote} (own : u.symbol = symbol) (updates : List Quote) :
    (ofUpdates symbol updates).view u = .summary symbol (updates ++ [u]) := by
  cases updates with
  | nil =>
    subst own
    simp [ofUpdates, view, Quote.summary, Quote.lastCarried]
  | cons first rest => exact Quote.merge_summary symbol _ u

theorem TopOfBook.update_ofUpdates {symbol : String} {u : Quote} (own : u.symbol = symbol) (updates : List Quote) :
    (ofUpdates symbol updates).update u = ofUpdates symbol (updates ++ [u]) := by
  rw [update, view_ofUpdates own, ofUpdates, if_neg (by simp)]

/-! ### Tapes -/

/-- What a symbol has been told of quotes since it was installed. -/
structure Tape where
  /-- Its quotes are listened to. -/
  listens : Bool
  /-- The updates that it took, oldest first. -/
  updates : List Quote

namespace Tape
open Desk (Event)

/-- The updates that an event adds to the tape of a symbol. -/
def told (symbol : String) (tape : Option Tape) : Event → List Quote
  | .quotes quotes => if tape.any (·.listens) then quotes.filter (·.symbol = symbol) else []
  | _ => []

/-- The tape of a symbol after an event; a symbol that is not installed has none. -/
def next (symbol : String) (tape : Option Tape) : Event → Option Tape
  | .quotes quotes => tape.map fun t => { t with updates := t.updates ++ told symbol tape (.quotes quotes) }
  | .install m sub => if m.symbol = symbol ∧ tape.isNone then some ⟨sub.quotes, []⟩ else tape
  | .detach name t => if name = symbol ∧ t.result.isOk then none else tape
  | .bars _ | .finish _ _ => tape

/-- The tape of a symbol after a run. -/
def ofRun (symbol : String) (events : List Event) : Option Tape := events.foldl (next symbol) none

/-- The updates on a tape; there are none without a tape. -/
def known (tape : Option Tape) : List Quote := tape.elim [] (·.updates)

theorem ofRun_concat (symbol : String) (events : List Event) (e : Event) :
    ofRun symbol (events ++ [e]) = next symbol (ofRun symbol events) e :=
  List.foldl_concat ..

end Tape

namespace Desk

/-- The quotes of a symbol among those that some effects show. -/
def quotesShown (symbol : String) (effects : List Effect) : List Quote :=
  effects.filterMap fun
    | .publish (.updateQuote q) => if q.symbol = symbol then some q else none
    | _ => none

@[simp] theorem quotesShown_append (symbol : String) (a b : List Effect) :
    quotesShown symbol (a ++ b) = quotesShown symbol a ++ quotesShown symbol b :=
  List.filterMap_append

/-! ### Events without quotes -/

/-- The step touches neither subscriptions nor books and shows no quote. -/
structure Quiet (d : Desk) (after : Desk × List Effect) : Prop where
  registry : after.1.registry = d.registry
  books : after.1.books = d.books
  silent : ∀ symbol, quotesShown symbol after.2 = []

theorem quiet_hear (d : Desk) (p : ChartListener × Bar Float) : d.Quiet (d.hear p) := by
  obtain ⟨listener, b⟩ := p
  cases listener with
  | archive =>
    refine ⟨rfl, rfl, fun symbol => ?_⟩
    simp only [hear]
    split <;> rfl
  | analytics =>
    simp only [hear, analyse]
    split
    · exact ⟨rfl, rfl, fun _ => rfl⟩
    · split <;> exact ⟨rfl, rfl, fun _ => rfl⟩

theorem quiet_takeBars (d : Desk) (bars : List (Bar Float)) : d.Quiet (d.takeBars bars) := by
  unfold takeBars
  generalize d.registry.routeBars bars = routed
  induction routed generalizing d with
  | nil => exact ⟨rfl, rfl, fun _ => rfl⟩
  | cons p rest ih =>
    have first := quiet_hear d p
    have others := ih (d.hear p).1
    rw [each_cons]
    refine ⟨others.registry.trans first.registry, others.books.trans first.books, fun symbol => ?_⟩
    rw [quotesShown_append, first.silent, others.silent, List.append_nil]

theorem quotesShown_outcome (symbol : String) (m : Monitor Float) (us : List (PatternUpdate Float)) :
    quotesShown symbol (outcome m us) = [] := by
  simp [quotesShown, outcome, List.filterMap_append, List.filterMap_map]

theorem quiet_complete (d : Desk) (symbol : String) (epoch : Nat) (result : Option (Derived Float)) :
    d.Quiet (d.complete symbol epoch result) := by
  unfold complete
  split
  · exact ⟨rfl, rfl, fun _ => rfl⟩
  · split
    · exact ⟨rfl, rfl, fun _ => rfl⟩
    · cases result with
      | none => exact ⟨rfl, rfl, fun _ => rfl⟩
      | some derived => exact ⟨rfl, rfl, fun name => quotesShown_outcome name _ _⟩

theorem quiet_finish (d : Desk) (place : Nat) (succeeds : Bool) : d.Quiet (d.finish place succeeds) := by
  unfold finish
  split
  · exact ⟨rfl, rfl, fun _ => rfl⟩
  · rename_i r _
    obtain ⟨registry, books, silent⟩ :=
      quiet_complete { d with outstanding := d.outstanding.eraseIdx place } r.symbol r.epoch
        (if succeeds then r.monitor.derive? else none)
    exact ⟨registry, books, silent⟩

/-! ### Quotes and books -/

/-- The books are those of the updates known of each symbol. -/
def Books (d : Desk) (known : String → Option (List Quote)) : Prop :=
  ∀ symbol, d.books.find? symbol = (known symbol).map (.ofUpdates symbol)

theorem books_takeQuote {d : Desk} {known : String → Option (List Quote)} (h : d.Books known) (u : Quote) :
    (d.takeQuote u).1.Books (fun symbol => (known symbol).map (· ++ [u].filter (·.symbol = symbol))) ∧
      ∀ symbol, quotesShown symbol (d.takeQuote u).2 =
        (known symbol).elim [] fun us => Quote.summaries symbol us ([u].filter (·.symbol = symbol)) := by
  have at_own := h u.symbol
  cases listed : known u.symbol with
  | none =>
    rw [listed] at at_own
    rw [takeQuote, at_own]
    refine ⟨fun symbol => ?_, fun symbol => ?_⟩ <;> by_cases own : u.symbol = symbol
    · subst own
      simp [at_own, listed]
    · simp [h symbol, own]
    · subst own
      simp [listed, quotesShown]
    · cases known symbol <;> simp [own, quotesShown]
  | some us =>
    rw [listed] at at_own
    rw [takeQuote, at_own]
    simp only [Option.map_some, TopOfBook.update_ofUpdates rfl, TopOfBook.view_ofUpdates rfl]
    refine ⟨fun symbol => ?_, fun symbol => ?_⟩ <;> by_cases own : u.symbol = symbol
    · subst own
      simp [listed]
    · simp [h symbol, own]
    · subst own
      simp [listed, quotesShown, Quote.summaries_cons, Quote.summary]
    · cases known symbol <;> simp [own, quotesShown, Quote.summary]

theorem books_each {d : Desk} {known : String → Option (List Quote)} (h : d.Books known) (us : List Quote) :
    (each takeQuote d us).1.Books (fun symbol => (known symbol).map (· ++ us.filter (·.symbol = symbol))) ∧
      ∀ symbol, quotesShown symbol (each takeQuote d us).2 =
        (known symbol).elim [] fun before => Quote.summaries symbol before (us.filter (·.symbol = symbol)) := by
  induction us generalizing d known with
  | nil =>
    refine ⟨fun symbol => ?_, fun symbol => ?_⟩
    · simp [each, h symbol]
    · cases known symbol <;> rfl
  | cons u rest ih =>
    obtain ⟨first, shown⟩ := books_takeQuote h u
    obtain ⟨others, shown'⟩ := ih first
    rw [each_cons]
    refine ⟨fun symbol => ?_, fun symbol => ?_⟩
    · rw [others symbol]
      by_cases own : u.symbol = symbol <;> cases known_of : known symbol <;> simp [own, known_of]
    · rw [quotesShown_append, shown, shown']
      by_cases own : u.symbol = symbol <;> cases known symbol <;> simp [own, Quote.summaries_cons]

/-! ### Tapes and books -/

/-- The subscription and the book of a symbol are those of its tape. -/
structure Tells (d : Desk) (symbol : String) (tape : Option Tape) : Prop where
  listener : (d.registry.find? symbol).map (·.quotes) = tape.map (·.listens)
  book : d.books.find? symbol = tape.map fun t => .ofUpdates symbol t.updates

theorem Tells.quiet {d : Desk} {symbol : String} {tape : Option Tape} (h : d.Tells symbol tape)
    {after : Desk × List Effect} (quiet : d.Quiet after) : after.1.Tells symbol tape :=
  ⟨by rw [quiet.registry, h.listener], by rw [quiet.books, h.book]⟩

/-- The updates of a batch that are listened to, of one symbol. -/
theorem routeQuotes_of {d : Desk} {symbol : String} {tape : Option Tape} (h : d.Tells symbol tape)
    (quotes : List Quote) :
    (d.registry.routeQuotes quotes).filter (·.symbol = symbol) = Tape.told symbol tape (.quotes quotes) := by
  have heard : (d.registry.find? symbol).any (·.quotes) = tape.any (·.listens) := by
    have same := congrArg (Option.any id) h.listener
    simpa [Option.any_map] using same
  have own : (d.registry.routeQuotes quotes).filter (·.symbol = symbol) =
      quotes.filter fun q => q.symbol = symbol ∧ tape.any (·.listens) := by
    rw [Registry.routeQuotes, List.filter_filter]
    refine List.filter_congr fun q _ => ?_
    by_cases at_symbol : q.symbol = symbol
    · rw [at_symbol, heard]
      simp
    · simp [at_symbol]
  rw [own, Tape.told]
  split <;> rename_i listens <;> simp [listens]

theorem tells_quotes {d : Desk} {tape : String → Option Tape} (h : ∀ symbol, d.Tells symbol (tape symbol))
    (quotes : List Quote) (symbol : String) :
    (d.takeQuotes quotes).1.Tells symbol (Tape.next symbol (tape symbol) (.quotes quotes)) ∧
      quotesShown symbol (d.takeQuotes quotes).2 =
        Quote.summaries symbol (Tape.known (tape symbol)) (Tape.told symbol (tape symbol) (.quotes quotes)) := by
  have books : d.Books fun name => (tape name).map (·.updates) := fun name => by
    rw [(h name).book, Option.map_map]
    rfl
  obtain ⟨after, shown⟩ := books_each books (d.registry.routeQuotes quotes)
  have at_symbol := after symbol
  have shown := shown symbol
  simp only [routeQuotes_of (h symbol)] at at_symbol shown
  refine ⟨⟨?_, at_symbol.trans ?_⟩, shown.trans ?_⟩
  · obtain ⟨books', frame⟩ := handle_quotes d quotes
    have same : (d.takeQuotes quotes).1.registry = d.registry := (congrArg Desk.registry frame :)
    rw [same, (h symbol).listener]
    cases tape symbol <;> rfl
  · cases tape symbol <;> rfl
  · unfold Tape.known
    cases tape symbol <;> rfl

theorem tells_install {d : Desk} {symbol : String} {tape : Option Tape} (h : d.Tells symbol tape)
    (m : Monitor Float) (sub : Subscription) :
    (d.install m sub).1.Tells symbol (Tape.next symbol tape (.install m sub)) ∧
      quotesShown symbol (d.install m sub).2.1 = [] := by
  have present : d.registry.isSubscribed symbol = tape.isSome := by
    simpa [Registry.isSubscribed] using congrArg Option.isSome h.listener
  by_cases taken : d.registry.isSubscribed m.symbol
  · have refused : d.install m sub = (d, [], .error (.alreadySubscribed m.symbol)) := by
      simp [install, Registry.insert, taken]
    have kept : Tape.next symbol tape (.install m sub) = tape := by
      refine if_neg fun ⟨own, free⟩ => ?_
      rw [← own, taken, Option.isNone_iff_eq_none.mp free] at present
      exact Bool.noConfusion present
    rw [refused, kept]
    exact ⟨h, rfl⟩
  · simp only [install, Registry.insert, if_neg taken]
    refine ⟨?_, rfl⟩
    by_cases own : m.symbol = symbol
    · subst own
      obtain rfl : tape = none := by simpa [taken] using present
      constructor <;> simp [Registry.find?, Tape.next, TopOfBook.ofUpdates, TopOfBook.empty]
    · constructor
      · simpa [Registry.find?, Tape.next, own] using h.listener
      · simpa [Tape.next, own] using h.book

theorem tells_detach {d : Desk} {symbol : String} {tape : Option Tape} (h : d.Tells symbol tape)
    (name : String) (t : Teardown) :
    (d.detach name t).Tells symbol (Tape.next symbol tape (.detach name t)) := by
  obtain ⟨listener, book⟩ := h
  obtain ⟨chartsRemoved, result⟩ := t
  cases result with
  | ok =>
    by_cases own : name = symbol
    · subst own
      constructor <;> simp [detach, Registry.detach, Registry.find?, Tape.next, Except.isOk, Except.toBool]
    · constructor
      · simpa [detach, Registry.detach, Registry.find?, Tape.next, own] using listener
      · simpa [detach, Registry.detach, Tape.next, own] using book
  | error fault =>
    have kept : Tape.next symbol tape (.detach name ⟨chartsRemoved, .error fault⟩) = tape := by
      simp [Tape.next, Except.isOk, Except.toBool]
    rw [kept]
    refine ⟨?_, by cases chartsRemoved <;> simpa [detach, Registry.detach] using book⟩
    -- A subscription without its charts has the quote listener that it had.
    cases chartsRemoved with
    | false => simpa [detach, Registry.detach] using listener
    | true =>
      rw [← listener]
      simp only [detach, Registry.detach, if_true, Registry.find?, Table.find?_modify]
      split
      · rename_i own
        subst own
        cases d.registry.entries.find? name <;> rfl
      · rfl

/-- What one event does to the tape of a symbol it does to its book, and it shows the updates
that it adds. -/
theorem tells_handle {d : Desk} {tape : String → Option Tape} (h : ∀ symbol, d.Tells symbol (tape symbol))
    (e : Event) (symbol : String) :
    (d.handle e).1.Tells symbol (Tape.next symbol (tape symbol) e) ∧
      quotesShown symbol (d.handle e).2 =
        Quote.summaries symbol (Tape.known (tape symbol)) (Tape.told symbol (tape symbol) e) := by
  cases e with
  | quotes quotes => exact tells_quotes h quotes symbol
  | install m sub => exact tells_install (h symbol) m sub
  | detach name t => exact ⟨tells_detach (h symbol) name t, rfl⟩
  | bars bars =>
    have quiet := quiet_takeBars d bars
    exact ⟨(h symbol).quiet quiet, quiet.silent symbol⟩
  | finish place succeeds =>
    have quiet := quiet_finish d place succeeds
    exact ⟨(h symbol).quiet quiet, quiet.silent symbol⟩

/-- The books of a run are its tapes. -/
theorem tells_run (events : List Event) (symbol : String) :
    (empty.run events).1.Tells symbol (Tape.ofRun symbol events) := by
  induction events using List.reverseRecOn generalizing symbol with
  | nil => exact ⟨rfl, rfl⟩
  | append_singleton events e ih =>
    rw [run_concat, Tape.ofRun_concat]
    exact (tells_handle ih e symbol).1

/-- **A desk shows of quotes what its tapes say.** After any run the book of a symbol is the
summary of its tape, and the next event shows one quote for each update that it adds to the tape:
the summary of the tape up to that update. A teardown that leaves the symbol subscribed leaves its
book as it is; any other takes the book with it. -/
theorem quotes_follow_tape (events : List Event) (symbol : String) :
    let d := (empty.run events).1
    let tape := Tape.ofRun symbol events
    (d.registry.find? symbol).map (·.quotes) = tape.map (·.listens) ∧
      d.books.find? symbol = tape.map (fun t => .ofUpdates symbol t.updates) ∧
      (∀ e, quotesShown symbol (d.handle e).2 =
        Quote.summaries symbol (Tape.known tape) (Tape.told symbol tape e)) ∧
      ∀ name t, (d.detach name t).books.find? symbol =
        if (d.detach name t).registry.isSubscribed symbol then d.books.find? symbol else none := by
  intro d tape
  have now := tells_run events
  refine ⟨(now symbol).listener, (now symbol).book, fun e => (tells_handle now e symbol).2, fun name t => ?_⟩
  have after := tells_detach (now symbol) name t
  have subscribed : (d.detach name t).registry.isSubscribed symbol =
      (Tape.next symbol tape (.detach name t)).isSome := by
    simpa [Registry.isSubscribed] using congrArg Option.isSome after.listener
  rw [subscribed, after.book]
  -- A teardown ends the tape or leaves it as it is.
  by_cases ended : name = symbol ∧ t.result.isOk
  · simp [Tape.next, ended]
  · have kept : Tape.next symbol tape (.detach name t) = tape := if_neg ended
    rw [kept, (now symbol).book]
    show tape.map _ = if tape.isSome then tape.map _ else none
    cases tape <;> rfl

end Desk
end TickerBoard
