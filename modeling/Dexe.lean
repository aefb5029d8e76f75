import Dexe.Control.Boundary
import Dexe.Straight.Agreement
import Dexe.Ir.Ssa
import Dexe.Backend.Versions
import Dexe.Backend.Prototypes
import Dexe.Backend.Immediates
import Dexe.Backend.Identifiers
import Dexe.Control.Calls
import Dexe.Control.Continuations
import Dexe.Control.Targets
import Dexe.Straight.Updates
import Dexe.Straight.Products
import Dexe.Straight.Access
import Dexe.Straight.NarrowCompared
import Dexe.Straight.Stack
import Dexe.Straight.Locations
import Dexe.Straight.Locked
import Dexe.Straight.Arithmetic
import Dexe.Frontend.Sections
import Dexe.Debug.Pipeline
import Dexe.Backend.Functions
import Dexe.X86.Programs
import Dexe.Programs.Emitted
import Dexe.Control.Paths
import Dexe.Main
import Dexe.Frontend.Cuts
import Dexe.Control.OnePass
import Dexe.Control.Stream
import Dexe.Cfg.WellFormed
import Dexe.Debug.Program
import Dexe.Programs.Image
import Dexe.Programs.Checker
import Dexe.Debug.Release
