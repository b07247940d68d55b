import CoinScript.Script.Instruction

/-!
# Opcodes

One byte names an opcode. The table gives every opcode with a name of its own,
and its instruction if it can be executed: the disabled, the reserved and the
unknown opcodes have none, and neither have the two that would need the
transaction around the script. The bytes `01` to `4b` announce a push of that
many bytes and stand under one common name.
-/

namespace CoinScript

structure Opcode where
  code : UInt8
  name : String
  instruction : Option Instruction
deriving DecidableEq, Repr

namespace Opcode

def table : List Opcode :=
  [⟨0x00, "OP_0", some (.stack (.number 0))⟩,
   ⟨0x4c, "OP_PUSHDATA1", none⟩,
   ⟨0x4d, "OP_PUSHDATA2", none⟩,
   ⟨0x4e, "OP_PUSHDATA4", none⟩,
   ⟨0x4f, "OP_1NEGATE", some (.stack (.number (-1)))⟩,
   ⟨0x50, "OP_RESERVED", none⟩,
   ⟨0x51, "OP_1", some (.stack (.number 1))⟩,
   ⟨0x52, "OP_2", some (.stack (.number 2))⟩,
   ⟨0x53, "OP_3", some (.stack (.number 3))⟩,
   ⟨0x54, "OP_4", some (.stack (.number 4))⟩,
   ⟨0x55, "OP_5", some (.stack (.number 5))⟩,
   ⟨0x56, "OP_6", some (.stack (.number 6))⟩,
   ⟨0x57, "OP_7", some (.stack (.number 7))⟩,
   ⟨0x58, "OP_8", some (.stack (.number 8))⟩,
   ⟨0x59, "OP_9", some (.stack (.number 9))⟩,
   ⟨0x5a, "OP_10", some (.stack (.number 10))⟩,
   ⟨0x5b, "OP_11", some (.stack (.number 11))⟩,
   ⟨0x5c, "OP_12", some (.stack (.number 12))⟩,
   ⟨0x5d, "OP_13", some (.stack (.number 13))⟩,
   ⟨0x5e, "OP_14", some (.stack (.number 14))⟩,
   ⟨0x5f, "OP_15", some (.stack (.number 15))⟩,
   ⟨0x60, "OP_16", some (.stack (.number 16))⟩,
   ⟨0x61, "OP_NOP", some (.stack .skip)⟩,
   ⟨0x62, "OP_VER", none⟩,
   ⟨0x63, "OP_IF", some (.conditional false)⟩,
   ⟨0x64, "OP_NOTIF", some (.conditional true)⟩,
   ⟨0x65, "OP_VERIF", none⟩,
   ⟨0x66, "OP_VERNOTIF", none⟩,
   ⟨0x67, "OP_ELSE", some (.stack .stray)⟩,
   ⟨0x68, "OP_ENDIF", some (.stack .stray)⟩,
   ⟨0x69, "OP_VERIFY", some (.stack .verify)⟩,
   ⟨0x6a, "OP_RETURN", some (.stack .abort)⟩,
   ⟨0x6b, "OP_TOALTSTACK", some (.altStack .put)⟩,
   ⟨0x6c, "OP_FROMALTSTACK", some (.altStack .take)⟩,
   ⟨0x6d, "OP_2DROP", some (.stack .drop2)⟩,
   ⟨0x6e, "OP_2DUP", some (.stack .dup2)⟩,
   ⟨0x6f, "OP_3DUP", some (.stack .dup3)⟩,
   ⟨0x70, "OP_2OVER", some (.stack .over2)⟩,
   ⟨0x71, "OP_2ROT", some (.stack .rot2)⟩,
   ⟨0x72, "OP_2SWAP", some (.stack .swap2)⟩,
   ⟨0x73, "OP_IFDUP", some (.stack .ifDup)⟩,
   ⟨0x74, "OP_DEPTH", some (.stack .depth)⟩,
   ⟨0x75, "OP_DROP", some (.stack .drop)⟩,
   ⟨0x76, "OP_DUP", some (.stack .dup)⟩,
   ⟨0x77, "OP_NIP", some (.stack .nip)⟩,
   ⟨0x78, "OP_OVER", some (.stack .over1)⟩,
   ⟨0x79, "OP_PICK", some (.stack .pick)⟩,
   ⟨0x7a, "OP_ROLL", some (.stack .roll)⟩,
   ⟨0x7b, "OP_ROT", some (.stack .rot)⟩,
   ⟨0x7c, "OP_SWAP", some (.stack .swap)⟩,
   ⟨0x7d, "OP_TUCK", some (.stack .tuck)⟩,
   ⟨0x7e, "OP_CAT", none⟩,
   ⟨0x7f, "OP_SUBSTR", none⟩,
   ⟨0x80, "OP_LEFT", none⟩,
   ⟨0x81, "OP_RIGHT", none⟩,
   ⟨0x82, "OP_SIZE", some (.stack .size)⟩,
   ⟨0x83, "OP_INVERT", none⟩,
   ⟨0x84, "OP_AND", none⟩,
   ⟨0x85, "OP_OR", none⟩,
   ⟨0x86, "OP_XOR", none⟩,
   ⟨0x87, "OP_EQUAL", some (.stack .equal)⟩,
   ⟨0x88, "OP_EQUALVERIFY", some (.stack .equalVerify)⟩,
   ⟨0x89, "OP_RESERVED1", none⟩,
   ⟨0x8a, "OP_RESERVED2", none⟩,
   ⟨0x8b, "OP_1ADD", some (.stack (.unary .increment))⟩,
   ⟨0x8c, "OP_1SUB", some (.stack (.unary .decrement))⟩,
   ⟨0x8d, "OP_2MUL", none⟩,
   ⟨0x8e, "OP_2DIV", none⟩,
   ⟨0x8f, "OP_NEGATE", some (.stack (.unary .negate))⟩,
   ⟨0x90, "OP_ABS", some (.stack (.unary .abs))⟩,
   ⟨0x91, "OP_NOT", some (.stack (.unary .not))⟩,
   ⟨0x92, "OP_0NOTEQUAL", some (.stack (.unary .nonzero))⟩,
   ⟨0x93, "OP_ADD", some (.stack (.binary .add))⟩,
   ⟨0x94, "OP_SUB", some (.stack (.binary .sub))⟩,
   ⟨0x95, "OP_MUL", none⟩,
   ⟨0x96, "OP_DIV", none⟩,
   ⟨0x97, "OP_MOD", none⟩,
   ⟨0x98, "OP_LSHIFT", none⟩,
   ⟨0x99, "OP_RSHIFT", none⟩,
   ⟨0x9a, "OP_BOOLAND", some (.stack (.binary .both))⟩,
   ⟨0x9b, "OP_BOOLOR", some (.stack (.binary .either))⟩,
   ⟨0x9c, "OP_NUMEQUAL", some (.stack (.binary .equal))⟩,
   ⟨0x9d, "OP_NUMEQUALVERIFY", some (.stack .numEqualVerify)⟩,
   ⟨0x9e, "OP_NUMNOTEQUAL", some (.stack (.binary .notEqual))⟩,
   ⟨0x9f, "OP_LESSTHAN", some (.stack (.binary .less))⟩,
   ⟨0xa0, "OP_GREATERTHAN", some (.stack (.binary .greater))⟩,
   ⟨0xa1, "OP_LESSTHANOREQUAL", some (.stack (.binary .lessOrEqual))⟩,
   ⟨0xa2, "OP_GREATERTHANOREQUAL", some (.stack (.binary .greaterOrEqual))⟩,
   ⟨0xa3, "OP_MIN", some (.stack (.binary .min))⟩,
   ⟨0xa4, "OP_MAX", some (.stack (.binary .max))⟩,
   ⟨0xa5, "OP_WITHIN", some (.stack .within)⟩,
   ⟨0xa6, "OP_RIPEMD160", some (.stack (.hash .ripemd160))⟩,
   ⟨0xa7, "OP_SHA1", some (.stack (.hash .sha1))⟩,
   ⟨0xa8, "OP_SHA256", some (.stack (.hash .sha256))⟩,
   ⟨0xa9, "OP_HASH160", some (.stack (.hash .hash160))⟩,
   ⟨0xaa, "OP_HASH256", some (.stack (.hash .hash256))⟩,
   ⟨0xab, "OP_CODESEPARATOR", some (.stack .skip)⟩,
   ⟨0xac, "OP_CHECKSIG", some (.signature (.single false))⟩,
   ⟨0xad, "OP_CHECKSIGVERIFY", some (.signature (.single true))⟩,
   ⟨0xae, "OP_CHECKMULTISIG", some (.signature (.multiple false))⟩,
   ⟨0xaf, "OP_CHECKMULTISIGVERIFY", some (.signature (.multiple true))⟩,
   ⟨0xb0, "OP_NOP1", some (.stack .skip)⟩,
   ⟨0xb1, "OP_CHECKLOCKTIMEVERIFY", none⟩,
   ⟨0xb2, "OP_CHECKSEQUENCEVERIFY", none⟩,
   ⟨0xb3, "OP_NOP4", some (.stack .skip)⟩,
   ⟨0xb4, "OP_NOP5", some (.stack .skip)⟩,
   ⟨0xb5, "OP_NOP6", some (.stack .skip)⟩,
   ⟨0xb6, "OP_NOP7", some (.stack .skip)⟩,
   ⟨0xb7, "OP_NOP8", some (.stack .skip)⟩,
   ⟨0xb8, "OP_NOP9", some (.stack .skip)⟩,
   ⟨0xb9, "OP_NOP10", some (.stack .skip)⟩,
   ⟨0xff, "OP_INVALIDOPCODE", none⟩]

def find? (code : UInt8) : Option Opcode :=
  table.find? fun entry => entry.code == code

/-- The name of the opcode with the given byte. -/
def nameOf (code : UInt8) : String :=
  match find? code with
  | some entry => entry.name
  | none => if 0x01 ≤ code ∧ code ≤ 0x4b then "OP_PUSHBYTES" else "OP_UNKNOWN"

/-- What the opcode with the given byte does, if it can be executed. -/
def instructionOf? (code : UInt8) : Option Instruction :=
  (find? code).bind fun entry => entry.instruction

/-! ## Opcodes that the library speaks about -/

def pushData1 : UInt8 := 0x4c

def pushData2 : UInt8 := 0x4d

/-- The last of the opcodes that push a constant. Those above it count against a limit. -/
def lastConstant : UInt8 := 0x60

def opIf : UInt8 := 0x63

def opNotIf : UInt8 := 0x64

def opElse : UInt8 := 0x67

def opEndIf : UInt8 := 0x68

def opDup : UInt8 := 0x76

def opEqual : UInt8 := 0x87

def opEqualVerify : UInt8 := 0x88

def opHash160 : UInt8 := 0xa9

def opCheckSig : UInt8 := 0xac

end Opcode

end CoinScript
