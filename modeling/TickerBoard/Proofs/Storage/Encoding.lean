import TickerBoard.Storage.Files
import TickerBoard.Proofs.Json.Reading

/-! What the files of a store carry.

Files have whole seconds of the calendar and doubles as their texts have them.
Bars, divergences and records of such values are read back as they were
written, and so are the names of instruments. -/
namespace TickerBoard
open Json

/-- A file carries the instant: a whole second of the calendar. -/
structure Instant.Encodable (t : Instant) : Prop where
  inside : t.inCalendar = true
  whole : t.ms % 1000 = 0

namespace Bar

structure Encodable (b : Bar Float) : Prop where
  time : b.time.Encodable
  opening : ReadsBack b.opening
  high : ReadsBack b.high
  low : ReadsBack b.low
  closing : ReadsBack b.closing
  volume : b.volume < Word.size 64

/-- A bar is read as another if its parts are read as those of the other. -/
theorem readsAs_parts {b c : Bar Float} (symbol : c.symbol = b.symbol)
    (time : ReadsAs Written.seconds? (.int b.time.seconds) c.time)
    (opening : ReadsAs Written.float? (.float b.opening) c.opening) (high : ReadsAs Written.float? (.float b.high) c.high)
    (low : ReadsAs Written.float? (.float b.low) c.low) (closing : ReadsAs Written.float? (.float b.closing) c.closing)
    (volume : ReadsAs (Written.nat? 64) (.int b.volume) c.volume) : ReadsAs ofWritten? b.json c := by
  obtain ⟨name, readName, isName⟩ := readsAs_text b.symbol
  obtain ⟨time, readTime, isTime⟩ := time
  obtain ⟨opening, readOpening, isOpening⟩ := opening
  obtain ⟨high, readHigh, isHigh⟩ := high
  obtain ⟨low, readLow, isLow⟩ := low
  obtain ⟨closing, readClosing, isClosing⟩ := closing
  obtain ⟨volume, readVolume, isVolume⟩ := volume
  refine ⟨.record [(some "symbol", name), (some "timestamp", time), (some "open", opening), (some "high", high),
    (some "low", low), (some "close", closing), (some "volume", volume)], reads_record ?_, ?_⟩
  · exact .cons ⟨rfl, readName⟩ (.cons ⟨rfl, readTime⟩ (.cons ⟨rfl, readOpening⟩ (.cons ⟨rfl, readHigh⟩
      (.cons ⟨rfl, readLow⟩ (.cons ⟨rfl, readClosing⟩ (.cons ⟨rfl, readVolume⟩ .nil))))))
  · simp [ofWritten?, Written.fields?, Written.single?, Written.needed, isName, isTime, isOpening, isHigh, isLow,
      isClosing, isVolume, ← symbol]

theorem readsAs_json {b : Bar Float} (h : b.Encodable) : ReadsAs ofWritten? b.json b :=
  readsAs_parts rfl (readsAs_seconds h.time.inside h.time.whole) (readsAs_float h.opening) (readsAs_float h.high)
    (readsAs_float h.low) (readsAs_float h.closing) (readsAs_nat h.volume)

end Bar

namespace Divergence

structure Encodable (d : Divergence Float) : Prop where
  day : d.day.inCalendar = true
  start : d.start.Encodable
  startPrice : ReadsBack d.startPrice
  startRsi : ReadsBack d.startRsi
  finish : d.finish.Encodable
  finishPrice : ReadsBack d.finishPrice
  finishRsi : ReadsBack d.finishRsi

theorem readsAs_json {d : Divergence Float} (h : d.Encodable) : ReadsAs ofWritten? d.json d := by
  obtain ⟨symbol, readSymbol, isSymbol⟩ := readsAs_text d.symbol
  obtain ⟨day, readDay, isDay⟩ := readsAs_day h.day
  obtain ⟨start, readStart, isStart⟩ := readsAs_seconds h.start.inside h.start.whole
  obtain ⟨startPrice, readStartPrice, isStartPrice⟩ := readsAs_float h.startPrice
  obtain ⟨startRsi, readStartRsi, isStartRsi⟩ := readsAs_float h.startRsi
  obtain ⟨finish, readFinish, isFinish⟩ := readsAs_seconds h.finish.inside h.finish.whole
  obtain ⟨finishPrice, readFinishPrice, isFinishPrice⟩ := readsAs_float h.finishPrice
  obtain ⟨finishRsi, readFinishRsi, isFinishRsi⟩ := readsAs_float h.finishRsi
  have isKind : Written.choice? [("Bullish", Kind.bullish), ("Bearish", .bearish)] (.text (some d.kind.name)) =
      some d.kind := by
    cases d.kind <;> rfl
  refine ⟨.record [(some "symbol", symbol), (some "divergence", .text (some d.kind.name)), (some "day", day),
    (some "start", start), (some "start_price", startPrice), (some "start_rsi", startRsi), (some "end", finish),
    (some "end_price", finishPrice), (some "end_rsi", finishRsi)], reads_record ?_, ?_⟩
  · exact .cons ⟨rfl, readSymbol⟩ (.cons ⟨rfl, reads_text _⟩ (.cons ⟨rfl, readDay⟩ (.cons ⟨rfl, readStart⟩
      (.cons ⟨rfl, readStartPrice⟩ (.cons ⟨rfl, readStartRsi⟩ (.cons ⟨rfl, readFinish⟩ (.cons ⟨rfl, readFinishPrice⟩
      (.cons ⟨rfl, readFinishRsi⟩ .nil))))))))
  · simp [ofWritten?, Written.fields?, Written.single?, Written.needed, isSymbol, isKind, isDay, isStart, isStartPrice,
      isStartRsi, isFinish, isFinishPrice, isFinishRsi]

end Divergence

namespace DayRecord

structure Encodable (r : DayRecord) : Prop where
  ascending : r.Ascending
  lists : ∀ e ∈ r.entries, ∀ d ∈ e.2, d.Encodable

theorem readsAs_json {r : DayRecord} (h : r.Encodable) : ReadsAs ofWritten? r.json r :=
  readsAs_table (fun e he => readsAs_list fun d hd => Divergence.readsAs_json (h.lists e he d hd)) h.ascending

end DayRecord

namespace FileStore

theorem readsAs_bars {bars : List (Bar Float)} (h : ∀ b ∈ bars, b.Encodable) :
    ReadsAs (Written.listOf? Bar.ofWritten?) (.listOf Bar.json bars) bars :=
  readsAs_list fun b hb => Bar.readsAs_json (h b hb)

theorem readsAs_instruments {names : Instruments} (ascending : names.Ascending) :
    ReadsAs instrumentsOf? (.listOf .text names.keys) names := by
  have listed : ReadsAs (Written.listOf? Written.text?) (.listOf .text names.keys) names.keys :=
    readsAs_list fun name _ => readsAs_text name
  obtain ⟨w, reads, decoded⟩ := listed
  refine ⟨w, reads, ?_⟩
  have entries : names.keys.map (·, ()) = names.entries := by
    rw [Table.keys, List.map_map]
    exact List.map_id names.entries
  rw [instrumentsOf?, decoded, Option.map_some, entries, Table.ofList_entries ascending]

end FileStore
end TickerBoard
