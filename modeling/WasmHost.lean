import WasmHost.Error
import WasmHost.Slab
import WasmHost.Reclaim
import WasmHost.FloatFormat.Shortest
import WasmHost.FloatFormat.Literal
import WasmHost.FloatFormat.Arithmetic
import WasmHost.Wasm.Validate
import WasmHost.ContentHash
import WasmHost.ModuleText
import WasmHost.Config.Text
import WasmHost.GuestLog
import WasmHost.CompiledModule
import WasmHost.Guest.Instantiation
import WasmHost.Host.Logging
import WasmHost.Host.Limits
import WasmHost.Host.Raw
import WasmHost.Script.Run
import WasmHost.Main
import WasmHost.Proofs.Closures
import WasmHost.Proofs.Handles
import WasmHost.Proofs.Fidelity
import WasmHost.Proofs.Slabs
import WasmHost.Proofs.Draining
import WasmHost.Proofs.Teardown
import WasmHost.Proofs.Isolation
import WasmHost.Proofs.Reporting
import WasmHost.Proofs.Blocks
import WasmHost.Proofs.Rejections
import WasmHost.Proofs.Defining
import WasmHost.Proofs.NamedImports
import WasmHost.Proofs.LogRuns
import WasmHost.Proofs.Lifetimes
import WasmHost.Proofs.Descriptors
import WasmHost.Proofs.LinearMemory
import WasmHost.Proofs.Wrapping
import WasmHost.Proofs.BoundedTables
import WasmHost.Proofs.Loading
import WasmHost.Proofs.Numerals
import WasmHost.Proofs.CommandArguments
import WasmHost.Proofs.JsonText
import WasmHost.Proofs.ConfigText
import WasmHost.Proofs.AgreeingViews
import WasmHost.Proofs.PeakOccupancy
