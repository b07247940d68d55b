import CoinScript.Bytes
import CoinScript.Curve.Basic
import CoinScript.Curve.Group
import CoinScript.Curve.Secp256k1
import CoinScript.Digest.Block
import CoinScript.Digest.Commitment
import CoinScript.Digest.Ripemd160
import CoinScript.Digest.Sha1
import CoinScript.Digest.Sha256
import CoinScript.Ecdsa.Nonce
import CoinScript.Ecdsa.PrivateKey
import CoinScript.Ecdsa.Verification
import CoinScript.Encoding.Der
import CoinScript.Encoding.Sec
import CoinScript.Encoding.VarInt
import CoinScript.Field
import CoinScript.Guarded.Basic
import CoinScript.Guarded.Machine
import CoinScript.Guarded.Positions
import CoinScript.Guarded.Signature
import CoinScript.Guarded.Stack
import CoinScript.Guarded.Wire
import CoinScript.Proofs.Curve.Addition
import CoinScript.Proofs.Curve.Closure
import CoinScript.Proofs.Curve.Generator
import CoinScript.Proofs.Curve.GroupLaw
import CoinScript.Proofs.Curve.Jacobian
import CoinScript.Proofs.Curve.Primality
import CoinScript.Proofs.Ecdsa.ForeignKeys
import CoinScript.Proofs.Ecdsa.NonceSequence
import CoinScript.Proofs.Ecdsa.Signing
import CoinScript.Proofs.Ecdsa.Tampering
import CoinScript.Proofs.Ecdsa.Verification
import CoinScript.Proofs.Encoding.Der
import CoinScript.Proofs.Encoding.Digits
import CoinScript.Proofs.Encoding.Sec
import CoinScript.Proofs.Encoding.VarInt
import CoinScript.Proofs.Field.Arithmetic
import CoinScript.Proofs.Field.Powers
import CoinScript.Proofs.Field.Residues
import CoinScript.Proofs.Field.SquareRoots
import CoinScript.Proofs.Guarded.Basic
import CoinScript.Proofs.Guarded.Machine
import CoinScript.Proofs.Guarded.Positions
import CoinScript.Proofs.Guarded.Signature
import CoinScript.Proofs.Guarded.Stack
import CoinScript.Proofs.Guarded.Wire
import CoinScript.Proofs.Script.Arithmetic
import CoinScript.Proofs.Script.Blocks
import CoinScript.Proofs.Script.Conditionals
import CoinScript.Proofs.Script.Faults
import CoinScript.Proofs.Script.Frame
import CoinScript.Proofs.Script.Grammar
import CoinScript.Proofs.Script.KeyHash
import CoinScript.Proofs.Script.Limits
import CoinScript.Proofs.Script.Locking
import CoinScript.Proofs.Script.MultipleChecks
import CoinScript.Proofs.Script.NormalForm
import CoinScript.Proofs.Script.Numbers
import CoinScript.Proofs.Script.Pieces
import CoinScript.Proofs.Script.PushOnly
import CoinScript.Proofs.Script.RedeemScripts
import CoinScript.Proofs.Script.RoundTrip
import CoinScript.Proofs.Script.Segments
import CoinScript.Proofs.Script.Separation
import CoinScript.Proofs.Script.ShortestNumbers
import CoinScript.Proofs.Script.SignedNumber
import CoinScript.Proofs.Script.Steps
import CoinScript.Proofs.Script.Templates
import CoinScript.Proofs.Script.Termination
import CoinScript.Proofs.Script.Tightening
import CoinScript.Proofs.Script.Widening
import CoinScript.Proofs.Sequencing
import CoinScript.Script.Branches
import CoinScript.Script.Command
import CoinScript.Script.Failure
import CoinScript.Script.Instruction
import CoinScript.Script.Machine
import CoinScript.Script.Number
import CoinScript.Script.Opcode
import CoinScript.Script.SignatureCheck
import CoinScript.Script.Spend
import CoinScript.Script.Stack
import CoinScript.Script.Trace
import CoinScript.Script.Wire
import CoinScript.Settings.Basic
import CoinScript.Settings.Document
import CoinScript.Settings.Environment
