import PeekPoke.Bench
import PeekPoke.Proofs.Accesses
import PeekPoke.Proofs.Bindings
import PeekPoke.Proofs.Blocks
import PeekPoke.Proofs.Bytes
import PeekPoke.Proofs.Calls
import PeekPoke.Proofs.Chronicle
import PeekPoke.Proofs.Constants
import PeekPoke.Proofs.Counting
import PeekPoke.Proofs.Decimals
import PeekPoke.Proofs.Definitions
import PeekPoke.Proofs.Expressions
import PeekPoke.Proofs.Failures
import PeekPoke.Proofs.Floats
import PeekPoke.Proofs.Folding.Meaning
import PeekPoke.Proofs.Independence
import PeekPoke.Proofs.Literals
import PeekPoke.Proofs.Mappings
import PeekPoke.Proofs.Members
import PeekPoke.Proofs.Operators
import PeekPoke.Proofs.Printing
import PeekPoke.Proofs.Registers
import PeekPoke.Proofs.Rendering
import PeekPoke.Proofs.Reports
import PeekPoke.Proofs.Signals
import PeekPoke.Proofs.Statics
import PeekPoke.Proofs.Stopping
import PeekPoke.Proofs.StrictFolding
import PeekPoke.Proofs.Subroutines
import PeekPoke.Rig
