/-!
# Failures of an evaluation

A script fails for one of thirteen reasons, and the failure names the command
at which it happened.
-/

namespace CoinScript

inductive FailureCode where
  | stackUnderflow
  | altStackUnderflow
  | verify
  | unbalancedConditional
  | numericOverflow
  | badEncoding
  | keyCount
  | aborted
  | badOpcode
  | redeemHashMismatch
  | redeemUnreadable
  | stackSize
  | opCount
deriving DecidableEq, Repr

namespace FailureCode

/-- The short name of the reason. -/
def label : FailureCode → String
  | stackUnderflow => "InvalidStackOperation"
  | altStackUnderflow => "InvalidAltStackOperation"
  | verify => "Verify"
  | unbalancedConditional => "UnbalancedConditional"
  | numericOverflow => "NumericOverflow"
  | badEncoding => "BadEncoding"
  | keyCount => "PubkeyCount"
  | aborted => "OpReturn"
  | badOpcode => "BadOpcode"
  | redeemHashMismatch => "P2shHashMismatch"
  | redeemUnreadable => "P2shRedeemScript"
  | stackSize => "StackSize"
  | opCount => "OpCount"

def text : FailureCode → String
  | stackUnderflow => "not enough items on the stack"
  | altStackUnderflow => "not enough items on the alt stack"
  | verify => "verification failed"
  | unbalancedConditional => "unbalanced conditional"
  | numericOverflow => "numeric operand too long"
  | badEncoding => "malformed public key or signature"
  | keyCount => "key or signature count out of range"
  | aborted => "OP_RETURN executed"
  | badOpcode => "disabled or unknown opcode"
  | redeemHashMismatch => "redeem script hash mismatch"
  | redeemUnreadable => "redeem script could not be parsed"
  | stackSize => "stack size limit exceeded"
  | opCount => "operation limit exceeded"

end FailureCode

structure ScriptFailure where
  code : FailureCode
  command : String
deriving DecidableEq, Repr

def ScriptFailure.message (f : ScriptFailure) : String :=
  s!"Script execution failed at {f.command} ({f.code.label}): {f.code.text}"

end CoinScript
