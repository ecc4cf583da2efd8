import ChainTable.Local.Entry

/-! Messages between clients and servers, as they lie in memory. -/

namespace ChainTable

/-- Operation codes, to which a successful reply adds one. -/
def opBad : Int := 0
/-- The code of a PUT. -/
def opPut : Int := 10
/-- The code of a GET. -/
def opGet : Int := 20
/-- The code of a DEL. -/
def opDel : Int := 30
/-- The code of a SIZE. -/
def opSize : Int := 40
/-- The code of a GETKEYS. -/
def opGetKeys : Int := 50
/-- The code of a GETTABLE. -/
def opGetTable : Int := 60
/-- The code of a STATS. -/
def opStats : Int := 70
/-- The code of a reply to a request that failed. -/
def opError : Int := 99

/-- Content codes, which say what a message carries. -/
def ctBad : Int := 0
/-- The message carries an entry. -/
def ctEntry : Int := 10
/-- The message carries a key. -/
def ctKey : Int := 20
/-- The message carries a value. -/
def ctValue : Int := 30
/-- The message carries a number. -/
def ctResult : Int := 40
/-- The message carries keys. -/
def ctKeys : Int := 50
/-- The message carries entries. -/
def ctTable : Int := 60
/-- The message carries statistics. -/
def ctStats : Int := 70
/-- The message carries nothing. -/
def ctNone : Int := 80

/-- `ProtobufCBinaryData`, a length and a pointer to bytes. -/
structure BinaryData where
  len : Nat
  data : Option (List UInt8)
  deriving DecidableEq, Repr

/-- The string with no bytes, which stands for a string that was never set. -/
def emptyString : Key := ⟨[], by simp⟩

/-- `EntryT`, with the defaults of `entry_t__init`. -/
structure EntryT where
  key : Option Key := some emptyString
  value : BinaryData := ⟨0, none⟩
  deriving DecidableEq, Repr

/-- `StatisticsT`, with the defaults of `statistics_t__init`. -/
structure StatisticsT where
  ops : Int := 0
  totalTime : Nat := 0
  clients : Int := 0
  deriving DecidableEq, Repr

/-- `MessageT`, with the defaults of `message_t__init`. -/
structure MessageT where
  opcode : Int := opBad
  cType : Int := ctBad
  entry : Option EntryT := none
  key : Option Key := some emptyString
  value : BinaryData := ⟨0, none⟩
  result : Int := 0
  nKeys : Nat := 0
  keys : Option (List (Option Key)) := none
  nEntries : Nat := 0
  entries : Option (List (Option EntryT)) := none
  stats : Option StatisticsT := none
  deriving DecidableEq, Repr

end ChainTable
