import TickerBoard.Settings.File
import TickerBoard.Storage.Memory
import TickerBoard.Storage.Files
import TickerBoard.Storage.Faulty
import TickerBoard.Web.Routes
import TickerBoard.Viewer.Socket
import TickerBoard.Brokerage.Pump
import TickerBoard.Brokerage.Live.Basic
import TickerBoard.Proofs.Desk.Sequential
import TickerBoard.Proofs.Service.Requests
import TickerBoard.Proofs.Stream.Recorded
import TickerBoard.Proofs.Service.Courses
import TickerBoard.Proofs.Service.Agreement
import TickerBoard.Proofs.Chart.Candles
import TickerBoard.Proofs.Chart.Shown
import TickerBoard.Proofs.Chart.Findings
import TickerBoard.Proofs.Monitor.Charts
import TickerBoard.Proofs.Storage.Records
import TickerBoard.Proofs.Monitor.Seeding
import TickerBoard.Proofs.Monitor.Restart
import TickerBoard.Proofs.Storage.Series
import TickerBoard.Proofs.Desk.Holding
import TickerBoard.Proofs.Service.Subscribed
import TickerBoard.Proofs.Service.Archive
import TickerBoard.Proofs.Chart.Closed
import TickerBoard.Proofs.Chart.Forming
import TickerBoard.Proofs.Monitor.Redetection
import TickerBoard.Proofs.Monitor.Rollover
import TickerBoard.Proofs.Storage.Coalescing
import TickerBoard.Proofs.Chart.Superseding
import TickerBoard.Proofs.Desk.Due
import TickerBoard.Proofs.Desk.Snapshots
import TickerBoard.Proofs.Storage.Refinement
import TickerBoard.Proofs.Service.Protocol
import TickerBoard.Proofs.Viewer.Delivery
import TickerBoard.Proofs.Monitor.History
import TickerBoard.Proofs.Scalar
import TickerBoard.Proofs.Chart.Chronology
import TickerBoard.Proofs.Monitor.Chronology
import TickerBoard.Proofs.Storage.Isolation
import TickerBoard.Proofs.Service.Remembered
import TickerBoard.Proofs.Service.Backfill
import TickerBoard.Proofs.Storage.Faults
import TickerBoard.Proofs.Brokerage.Acknowledgement
import TickerBoard.Proofs.Storage.Interruption
import TickerBoard.Proofs.Indicator.Extrema
import TickerBoard.Proofs.Chart.Pairing
import TickerBoard.Proofs.Chart.Detected
import TickerBoard.Proofs.Chart.Levels
import TickerBoard.Proofs.Chart.Resampling
import TickerBoard.Proofs.Chart.Frames
import TickerBoard.Proofs.Indicator.Placement
import TickerBoard.Proofs.Indicator.Strength
import TickerBoard.Proofs.Market.Expiries
import TickerBoard.Proofs.Service.Options
import TickerBoard.Proofs.Double
import TickerBoard.Proofs.Json.Scaling
import TickerBoard.Proofs.Json.Shortest
import TickerBoard.Proofs.Json.Doubles
import TickerBoard.Proofs.Storage.Keyed
import TickerBoard.Proofs.Chart.Trimming
import TickerBoard.Proofs.Desk.Quotes
import TickerBoard.Proofs.Settings.Restored
import TickerBoard.Proofs.Monitor.Recent
