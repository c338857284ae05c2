import TickerBoard.Settings.File
import TickerBoard.Proofs.Json.Indented
import TickerBoard.Proofs.Storage.Directory

/-! Settings that are written and read again.

The numbers of settings fit into their words and their doubles are finite
(`Settings.Fits`); a moment counts as fitting if its text is read as the moment.
Each section then decodes to itself, and with keys lost to itself with the standard
values under these keys (`reset`). The settings are put together from their
sections (`Settings.Fits.decodes`), so they come back from their value and from
their file, but for the token (`restored_without_token`). -/
namespace TickerBoard
open Json

/-! ### Defaults -/

/-- Nothing that a section lacks tells whether the section is there: a section without fields is read
as the one that stands for a missing section, and a file without sections as the settings that hold
without a file. -/
theorem Settings.ofWritten?_nothing :
    DetectionSettings.ofWritten? (.record []) = some default ∧ LevelSettings.ofWritten? (.record []) = some default ∧
      LiveSettings.ofWritten? (.record []) = some default ∧ SimulationSettings.ofWritten? (.record []) = some default ∧
      Settings.ofWritten? (.record []) = some Settings.standard :=
  ⟨rfl, rfl, rfl, rfl, rfl⟩

/-- The sections follow the standard rules of detection and of levels. -/
theorem Settings.standard_rules : Settings.standard.analysis =
    ⟨Settings.Missing.charts, ⟨14, .standard, Settings.standard.clock⟩, 60, .standard, 7, 14⟩ :=
  rfl

/-! ### Sections -/

namespace ChartSettings

/-- Words hold the numbers. -/
structure Fits (c : ChartSettings) : Prop where
  minutes : c.minutes < Word.size 32
  averagePeriod : c.averagePeriod < Word.size 64
  keepDays : c.keepDays < Word.size 32

theorem Fits.decodes {c : ChartSettings} (h : c.Fits) : Decodes ofWritten? c.json c := by
  intro w spelled
  cases spelled with
  | record spelled =>
    have label := needed_there spelled "label" rfl (decodes_text c.label)
    have minutes := needed_there spelled "minutes" rfl (decodes_nat h.minutes)
    have averagePeriod := orElse_there spelled "ema_period" rfl (decodes_nat h.averagePeriod) 0
    have keepDays := orElse_there spelled "keep_days" rfl (decodes_nat h.keepDays) 0
    have sessionScoped := orElse_there spelled "session_scoped" rfl (decodes_flag c.sessionScoped) Settings.Missing.flag
    rw [ofWritten?, fields?_spelled spelled (by simp)]
    simp [label, minutes, averagePeriod, keepDays, sessionScoped]

theorem Fits.legible {c : ChartSettings} (h : c.Fits) : Legible c.json := by
  refine .record ?_
  simp only [List.forall_mem_cons]
  exact ⟨.text _, .nat32 h.minutes, .nat h.averagePeriod, .nat32 h.keepDays, .flag _, nofun⟩

end ChartSettings

namespace DetectionSettings

/-- Words hold the numbers, and the doubles are numbers. -/
structure Fits (d : DetectionSettings) : Prop where
  rsiPeriod : d.rsiPeriod < Word.size 64
  order : d.rules.order < Word.size 64
  overbought : d.rules.overbought.isFinite = true
  oversold : d.rules.oversold.isFinite = true

/-- The settings with the standard values in some fields. -/
def reset (gone : String → Bool) (d : DetectionSettings) : DetectionSettings :=
  let standard := Settings.standardDetection
  { rsiPeriod := if gone "rsi_period" then standard.rsiPeriod else d.rsiPeriod
    rules := {
      order := if gone "order" then standard.rules.order else d.rules.order
      overbought := if gone "overbought" then standard.rules.overbought else d.rules.overbought
      oversold := if gone "oversold" then standard.rules.oversold else d.rules.oversold } }

theorem Fits.decodes {d : DetectionSettings} (h : d.Fits) (gone : String → Bool) :
    Decodes ofWritten? (d.json.without gone) (d.reset gone) := by
  intro w spelled
  cases spelled with
  | record spelled =>
    have rsiPeriod := orElse_field spelled "rsi_period" rfl (decodes_nat h.rsiPeriod)
    have order := orElse_field spelled "order" rfl (decodes_nat h.order)
    have overbought := orElse_field spelled "overbought" rfl (decodes_float h.overbought)
    have oversold := orElse_field spelled "oversold" rfl (decodes_float h.oversold)
    rw [ofWritten?, fields?_spelled spelled (distinct_filter gone (by simp))]
    simp [rsiPeriod, order, overbought, oversold, reset, Settings.standardDetection]

theorem Fits.legible {d : DetectionSettings} (h : d.Fits) (overbought : (Number.float d.rules.overbought).Legible)
    (oversold : (Number.float d.rules.oversold).Legible) : Legible d.json := by
  refine .record ?_
  simp only [List.forall_mem_cons]
  exact ⟨.nat h.rsiPeriod, .nat h.order, .float overbought, .float oversold, nofun⟩

end DetectionSettings

namespace LevelSettings

/-- Words hold the numbers, and the tolerance is a number. -/
structure Fits (l : LevelSettings) : Prop where
  minutes : l.minutes < Word.size 32
  order : l.rules.order < Word.size 64
  tolerance : l.rules.tolerance.isFinite = true

/-- The settings with the standard values in some fields. -/
def reset (gone : String → Bool) (l : LevelSettings) : LevelSettings :=
  let standard := Settings.standardLevels
  { minutes := if gone "minutes" then standard.minutes else l.minutes
    rules := {
      order := if gone "order" then standard.rules.order else l.rules.order
      tolerance := if gone "tolerance_ratio" then standard.rules.tolerance else l.rules.tolerance } }

theorem Fits.decodes {l : LevelSettings} (h : l.Fits) (gone : String → Bool) :
    Decodes ofWritten? (l.json.without gone) (l.reset gone) := by
  intro w spelled
  cases spelled with
  | record spelled =>
    have minutes := orElse_field spelled "minutes" rfl (decodes_nat h.minutes)
    have order := orElse_field spelled "order" rfl (decodes_nat h.order)
    have tolerance := orElse_field spelled "tolerance_ratio" rfl (decodes_float h.tolerance)
    rw [ofWritten?, fields?_spelled spelled (distinct_filter gone (by simp))]
    simp [minutes, order, tolerance, reset, Settings.standardLevels]

theorem Fits.legible {l : LevelSettings} (h : l.Fits) (tolerance : (Number.float l.rules.tolerance).Legible) :
    Legible l.json := by
  refine .record ?_
  simp only [List.forall_mem_cons]
  exact ⟨.nat32 h.minutes, .nat h.order, .float tolerance, nofun⟩

end LevelSettings

namespace LiveSettings

def withoutToken (l : LiveSettings) : LiveSettings := { l with token := "" }

/-- The settings with the standard values in some fields. -/
def reset (gone : String → Bool) (l : LiveSettings) : LiveSettings :=
  let standard := Settings.standardLive
  { baseUrl := if gone "api_base_url" then standard.baseUrl else l.baseUrl
    extendedHours := if gone "extended_hours" then standard.extendedHours else l.extendedHours
    token := if gone "api_token" then standard.token else l.token }

/-- The token is not among the fields, so it is read as the standard one. -/
theorem decodes (l : LiveSettings) (gone : String → Bool) :
    Decodes ofWritten? (l.json.without gone) (l.withoutToken.reset gone) := by
  intro w spelled
  cases spelled with
  | record spelled =>
    have baseUrl := orElse_field spelled "api_base_url" rfl (decodes_text l.baseUrl)
    have extendedHours := orElse_field spelled "extended_hours" rfl (decodes_flag l.extendedHours)
    have token : ∀ standard, Written.orElse Written.text? standard _ = some standard :=
      orElse_absent spelled "api_token" (by rw [lookup_filter]; exact ite_self none)
    rw [ofWritten?, fields?_spelled spelled (distinct_filter gone (by simp))]
    simp [baseUrl, extendedHours, token, reset, withoutToken, Settings.standardLive, Settings.Missing.flag]

theorem legible (l : LiveSettings) : Legible l.json := by
  refine .record ?_
  simp only [List.forall_mem_cons]
  exact ⟨.text _, .flag _, nofun⟩

end LiveSettings

namespace SimulationSettings

/-- Words hold the numbers, the balance is a number, and the date is read as it is written. -/
structure Fits (s : SimulationSettings) : Prop where
  replayStart : ∀ m, s.replayStart = some m → Moment.ofText? m.text = some m
  replayInterval : s.replayInterval < Word.size 64
  balance : s.balance.isFinite = true

/-- The settings with the standard values in some fields. -/
def reset (gone : String → Bool) (s : SimulationSettings) : SimulationSettings :=
  let standard := Settings.standardSimulation
  { historyFile := if gone "history_file" then standard.historyFile else s.historyFile
    replayStart := if gone "replay_start" then standard.replayStart else s.replayStart
    replayInterval := if gone "replay_interval_ms" then standard.replayInterval else s.replayInterval
    balance := if gone "account_balance" then standard.balance else s.balance }

theorem Fits.decodes {s : SimulationSettings} (h : s.Fits) (gone : String → Bool) :
    Decodes ofWritten? (s.json.without gone) (s.reset gone) := by
  intro w spelled
  cases spelled with
  | record spelled =>
    have historyFile := orElse_field spelled "history_file" rfl
      (decodes_optional fun file _ => ⟨nofun, decodes_text file⟩)
    have replayStart := orElse_field spelled "replay_start" rfl
      (decodes_optional fun m set => ⟨nofun, decodes_moment (h.replayStart m set)⟩)
    have replayInterval := orElse_field spelled "replay_interval_ms" rfl (decodes_nat h.replayInterval)
    have balance := orElse_field spelled "account_balance" rfl (decodes_float h.balance)
    rw [ofWritten?, fields?_spelled spelled (distinct_filter gone (by simp))]
    simp [historyFile, replayStart, replayInterval, balance, reset, Settings.standardSimulation, Option.default_eq_none]

theorem Fits.legible {s : SimulationSettings} (h : s.Fits) (balance : (Number.float s.balance).Legible) :
    Legible s.json := by
  refine .record ?_
  simp only [List.forall_mem_cons]
  exact ⟨.optional .text _, .optional (fun (m : Moment) => .text m.text) _, .nat h.replayInterval, .float balance, nofun⟩

end SimulationSettings

/-! ### Lost keys -/

/-- The keys that a settings file has lost, at its top and in four of its sections. -/
structure Omission where
  top : String → Bool
  detection : String → Bool
  levels : String → Bool
  live : String → Bool
  simulation : String → Bool

namespace Omission

/-- The value without the lost keys. -/
def cut (o : Omission) (j : Json) : Json :=
  ((((j.within "divergence" (without o.detection)).within "price_levels" (without o.levels)).within
    "live" (without o.live)).within "simulation" (without o.simulation)).without o.top

/-- The settings with the standard values under the lost keys. -/
def reset (o : Omission) (s : Settings) : Settings :=
  let standard := Settings.standard
  { adapter := if o.top "adapter" then standard.adapter else s.adapter
    symbols := if o.top "symbols" then standard.symbols else s.symbols
    charts := if o.top "charts" then standard.charts else s.charts
    detection := if o.top "divergence" then standard.detection else s.detection.reset o.detection
    levels := if o.top "price_levels" then standard.levels else s.levels.reset o.levels
    historyDays := if o.top "history_days" then standard.historyDays else s.historyDays
    rangePeriod := if o.top "atr_period" then standard.rangePeriod else s.rangePeriod
    clockOffset := if o.top "exchange_utc_offset_minutes" then standard.clockOffset else s.clockOffset
    viewerCapacity := if o.top "viewer_queue_capacity" then standard.viewerCapacity else s.viewerCapacity
    queueCapacity := if o.top "persistence_queue_capacity" then standard.queueCapacity else s.queueCapacity
    dataFolder := if o.top "data_dir" then standard.dataFolder else s.dataFolder
    bindAddress := if o.top "bind_addr" then standard.bindAddress else s.bindAddress
    live := if o.top "live" then standard.live else s.live.reset o.live
    simulation := if o.top "simulation" then standard.simulation else s.simulation.reset o.simulation }

theorem legible_cut (o : Omission) {j : Json} (h : Legible j) : Legible (o.cut j) :=
  ((((h.within _ (·.without o.detection)).within _ (·.without o.levels)).within _ (·.without o.live)).within _
    (·.without o.simulation)).without o.top

/-- Nothing is lost. -/
def nothing : Omission := ⟨fun _ => false, fun _ => false, fun _ => false, fun _ => false, fun _ => false⟩

theorem cut_nothing (s : Settings) : nothing.cut s.json = s.json := rfl

theorem reset_nothing (s : Settings) : nothing.reset s = s := rfl

end Omission

/-! ### All settings -/

namespace Settings

/-- Words hold the numbers, the doubles are numbers, and the date is read as it is written. -/
structure Fits (s : Settings) : Prop where
  charts : ∀ c ∈ s.charts, c.Fits
  detection : s.detection.Fits
  levels : s.levels.Fits
  historyDays : s.historyDays < Word.size 32
  rangePeriod : s.rangePeriod < Word.size 64
  clockOffset : Word.least 32 ≤ s.clockOffset ∧ s.clockOffset ≤ Word.greatest 32
  viewerCapacity : s.viewerCapacity < Word.size 64
  queueCapacity : s.queueCapacity < Word.size 64
  simulation : s.simulation.Fits

def withoutToken (s : Settings) : Settings := { s with live := s.live.withoutToken }

theorem decodes_adapter (mode : AdapterMode) : Decodes adapterOfWritten? (.text mode.name) mode := by
  intro w spelled
  cases spelled
  cases mode <;> rfl

theorem cut_json (s : Settings) (o : Omission) :
    o.cut s.json = (Json.record [("adapter", .text s.adapter.name), ("symbols", .listOf .text s.symbols),
      ("charts", .listOf ChartSettings.json s.charts), ("divergence", s.detection.json.without o.detection),
      ("price_levels", s.levels.json.without o.levels), ("history_days", .int s.historyDays),
      ("atr_period", .int s.rangePeriod), ("exchange_utc_offset_minutes", .int s.clockOffset),
      ("viewer_queue_capacity", .int s.viewerCapacity), ("persistence_queue_capacity", .int s.queueCapacity),
      ("data_dir", .text s.dataFolder), ("bind_addr", .text s.bindAddress), ("live", s.live.json.without o.live),
      ("simulation", s.simulation.json.without o.simulation)]).without o.top := by
  simp [Omission.cut, json, within]

theorem Fits.decodes {s : Settings} (h : s.Fits) (o : Omission) :
    Decodes ofWritten? (o.cut s.json) (o.reset s.withoutToken) := by
  intro w spelled
  rw [cut_json] at spelled
  cases spelled with
  | record spelled =>
    have adapter := orElse_field spelled "adapter" rfl (decodes_adapter s.adapter)
    have symbols := orElse_field spelled "symbols" rfl (decodes_list fun symbol _ => decodes_text symbol)
    have charts := orElse_field spelled "charts" rfl (decodes_list fun c here => (h.charts c here).decodes)
    have detection := orElse_field spelled "divergence" rfl (h.detection.decodes o.detection)
    have levels := orElse_field spelled "price_levels" rfl (h.levels.decodes o.levels)
    have historyDays := orElse_field spelled "history_days" rfl (decodes_nat h.historyDays)
    have rangePeriod := orElse_field spelled "atr_period" rfl (decodes_nat h.rangePeriod)
    have clockOffset := orElse_field spelled "exchange_utc_offset_minutes" rfl (decodes_signed h.clockOffset)
    have viewerCapacity := orElse_field spelled "viewer_queue_capacity" rfl (decodes_nat h.viewerCapacity)
    have queueCapacity := orElse_field spelled "persistence_queue_capacity" rfl (decodes_nat h.queueCapacity)
    have dataFolder := orElse_field spelled "data_dir" rfl (decodes_text s.dataFolder)
    have bindAddress := orElse_field spelled "bind_addr" rfl (decodes_text s.bindAddress)
    have live := orElse_field spelled "live" rfl (s.live.decodes o.live)
    have simulation := orElse_field spelled "simulation" rfl (h.simulation.decodes o.simulation)
    rw [ofWritten?, fields?_spelled spelled (distinct_filter o.top (by simp)), Option.bind_eq_bind, Option.bind_some]
    dsimp only [List.map]
    -- Field by field: simp would go through all fields to come for each.
    rw [adapter, symbols, charts, detection, levels, historyDays, rangePeriod, clockOffset, viewerCapacity,
      queueCapacity, dataFolder, bindAddress, live, simulation]
    rfl

/-! ### The file -/

/-- The doubles among the settings. -/
def doubles (s : Settings) : List Float :=
  [s.detection.rules.overbought, s.detection.rules.oversold, s.levels.rules.tolerance, s.simulation.balance]

/-- The value of the settings is legible if the doubles among them are. -/
theorem Fits.legible {s : Settings} (h : s.Fits) (doubles : ∀ x ∈ s.doubles, (Number.float x).Legible) :
    Legible s.json := by
  obtain ⟨overbought, oversold, tolerance, balance, -⟩ := by
    simpa only [Settings.doubles, List.forall_mem_cons] using doubles
  have clock : Legible (.int s.clockOffset) := by
    have bounds : -2147483648 ≤ s.clockOffset ∧ s.clockOffset ≤ 2147483647 := h.clockOffset
    have least : Word.least 64 = -9223372036854775808 := rfl
    have size : Word.size 64 = 18446744073709551616 := rfl
    exact .number (legible_int (by omega))
  refine .record ?_
  simp only [List.forall_mem_cons]
  exact ⟨.text _, .listOf fun _ _ => .text _, .listOf fun c here => (h.charts c here).legible,
    h.detection.legible overbought oversold, h.levels.legible tolerance, .nat32 h.historyDays, .nat h.rangePeriod, clock,
    .nat h.viewerCapacity, .nat h.queueCapacity, .text _, .text _, s.live.legible, h.simulation.legible balance, nofun⟩

/-- Settings whose value has lost keys are loaded from a file that has the value. -/
theorem Fits.load {s : Settings} (h : s.Fits) (doubles : ∀ x ∈ s.doubles, (Number.float x).Legible) (o : Omission)
    {disk : Directory} (there : disk.read? [fileName] = some ((o.cut s.json).indented 0)) (root : String) :
    load root disk = .ok (o.reset s.withoutToken) := by
  obtain ⟨w, taken, spelled⟩ := (o.legible_cut (h.legible doubles)).ofText?_indented
  simp only [Settings.load, there, taken, Option.bind_some, h.decodes o w spelled]

/-- What is saved is in the file. -/
theorem read?_save {s : Settings} {root : String} {disk : Directory} (saved : (s.save root disk).2 = .ok ()) :
    (s.save root disk).1.read? [fileName] = some (s.json.indented 0) := by
  have plain : Directory.Plain fileName := ⟨by decide, by decide, by decide⟩
  have plain' : Directory.Plain temporaryName := ⟨by decide, by decide, by decide⟩
  cases replaced : disk.replace [temporaryName] [fileName] (s.json.indented 0) with
  | mk disk' result =>
    rw [save, replaced] at saved ⊢
    cases result with
    | ok => exact Directory.read?_replace plain' plain replaced
    | error fault => cases fault <;> cases saved

/-- **Settings come back from their file, but for the token.** The value that is written is the
same whatever the token is, and it is read, however it is spelled, as the settings with an empty
token; if it has lost keys, as these settings with the standard values under the lost keys and
nowhere else. So it is with files, as long as the texts of the doubles are read as the doubles: what
is saved is loaded without the token, and with the standard values for what the file has lost. -/
theorem restored_without_token {s : Settings} (fits : s.Fits) :
    (∀ token, ({ s with live := { s.live with token } } : Settings).json = s.json) ∧
      Decodes ofWritten? s.json s.withoutToken ∧
      (∀ o : Omission, Decodes ofWritten? (o.cut s.json) (o.reset s.withoutToken)) ∧
      ((∀ x ∈ s.doubles, (Number.float x).Legible) → ∀ root disk,
        ((s.save root disk).2 = .ok () → load root (s.save root disk).1 = .ok s.withoutToken) ∧
          ∀ o : Omission, disk.read? [fileName] = some ((o.cut s.json).indented 0) →
            load root disk = .ok (o.reset s.withoutToken)) := by
  refine ⟨fun _ => rfl, ?_, fits.decodes, fun doubles root disk => ⟨fun saved => ?_, fun o there => ?_⟩⟩
  · simpa only [Omission.cut_nothing, Omission.reset_nothing] using fits.decodes .nothing
  · have there := read?_save saved
    rw [← Omission.cut_nothing] at there
    exact fits.load doubles .nothing there root
  · exact fits.load doubles o there root

/-- A live board that replays a file from a given moment on. -/
def replaying : Settings :=
  { standard with
    adapter := .live
    symbols := ["XYZ"]
    live := ⟨standardLive.baseUrl, false, "secret"⟩
    simulation := ⟨some "bars.json", some ⟨1747828800, 500000000⟩, 250, 1.5⟩ }

theorem fits_replaying : replaying.Fits where
  charts := by
    intro c here
    rcases List.mem_pair.mp here with rfl | rfl <;> exact ⟨by decide, by decide, by decide⟩
  detection := ⟨by decide, by decide, by decide +kernel, by decide +kernel⟩
  levels := ⟨by decide, by decide, by decide +kernel⟩
  historyDays := by decide
  rangePeriod := by decide
  clockOffset := by decide
  viewerCapacity := by decide
  queueCapacity := by decide
  simulation := {
    replayStart := by
      intro m set
      obtain rfl := Option.some.inj set
      decide +kernel
    replayInterval := by decide
    balance := by decide +kernel }

theorem legible_replaying : ∀ x ∈ replaying.doubles, (Number.float x).Legible := by
  have shown : ∀ {x : Float} {n : Numeral}, Written.takeNumeral (Number.float x).text.toList = some (n, []) →
      n.decimals.isSome → n.float? = some x → (Number.float x).Legible := by
    intro x n taken point read
    obtain ⟨negative, whole, decimals | decimals, exponent⟩ := n
    · cases point
    · exact ⟨_, taken, congrArg (Option.map Number.float) read⟩
  simp only [doubles, List.forall_mem_cons]
  refine ⟨shown (n := ⟨false, [7, 0], some [0], none⟩) ?_ rfl ?_,
    shown (n := ⟨false, [3, 0], some [0], none⟩) ?_ rfl ?_, shown (n := ⟨false, [0], some [0, 4], none⟩) ?_ rfl ?_,
    shown (n := ⟨false, [1], some [5], none⟩) ?_ rfl ?_, nofun⟩
  all_goals decide +kernel

/-- In an empty folder the settings are saved, and loaded without their token. Without the section of
the detection and the balance of the account, the value has the standards of both. -/
theorem restored_without_token_replaying :
    replaying.Fits ∧ (replaying.save "" .empty).2 = .ok () ∧
      load "" (replaying.save "" .empty).1 = .ok { replaying with live := ⟨standardLive.baseUrl, false, ""⟩ } ∧
      Decodes ofWritten?
        (Omission.cut { Omission.nothing with top := (· == "divergence"), simulation := (· == "account_balance") }
          replaying.json)
        { replaying with
          detection := standardDetection
          live := ⟨standardLive.baseUrl, false, ""⟩
          simulation := { replaying.simulation with balance := 2000.0 } } := by
  obtain ⟨-, -, cut, files⟩ := restored_without_token fits_replaying
  have saved : (replaying.save "" .empty).2 = .ok () := rfl
  exact ⟨fits_replaying, saved, (files legible_replaying "" .empty).1 saved, cut _⟩

end Settings
end TickerBoard
