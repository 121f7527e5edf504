import QuantumNode.Text

/-
  Faults: the causes for which an operation of this library is refused. A fault that a rule of the
  library explains has a message; a fault of the machinery underneath (an index beyond the end, a
  missing key) has a category only.
-/

namespace QuantumNode

-- The kind of rule that was broken. Handlers that let some faults pass choose them by category.
inductive Category
  | badValue
  | badType
  | outOfBounds
  | missingKey
  | missingAttribute
  | violation
  | failure
  | overflow
  | divisionByZero
  | unassigned
  | badText
  | badInstruction
  | unallocated
  | noCircuit
  | aborted
  | unimplemented
  | timedOut
  | connection
  | missingFile
  | existingFile
  | notADirectory
  | isADirectory
  | missingModule
  | badProgram
  | badMarkup
  | badMarkupToken
  | badMarkupCharacter
  | badMarkupKey
  | severalDocuments
  | badEncoding
  | badJson
  | denied
  | inactiveQubit
  | noValueYet
  | variableIndex
  | blocked
  | stepLimit
  deriving DecidableEq

---- Program texts, mapping and gates

inductive VersionFault
  | tooFewParts
  | tooManyParts
  | notANumber (part : String)
  deriving DecidableEq

def VersionFault.message : VersionFault → String
  | .tooFewParts => "not enough values to unpack (expected 2, got 1)"
  | .tooManyParts => "too many values to unpack (expected 2)"
  | .notANumber part =>
    "invalid literal for int() with base 10: " ++ Text.Quoted.quote part

inductive LanguageFault
  | separatorNotText
  | separatorEmpty
  | bracketsNotText
  | bracketsNotDistinct
  | separatorInBrackets
  | unclosedBracket
  | noEndBracket (word : String) (bracket : Char)
  | badRegisterName (name : Char)
  | expectedConstant (word : String)
  | expectedAddress (word : String)
  | addressIsRegister
  | notAValue (word : String)
  | badLabel (name : String)
  | duplicateLabel (name : String)
  | unknownInstr (name : String)
  | notABranch (name : String)
  | preambleAfterBody
  | preambleWords (cause : String)
  | preambleUnknown (name : String)
  | preambleRepeated (name : String)
  | preambleArgument (name : String) (words : List String)
  | macroArguments (words : List String)
  | badMacroKey (key : String)
  | duplicateMacroKeys (keys : List String)
  | badVersion (text : String) (cause : VersionFault)
  | noRegistersLeft
  | commandLength
  deriving DecidableEq

namespace LanguageFault

def category : LanguageFault → Category
  | separatorNotText | bracketsNotText | addressIsRegister => .badType
  | separatorEmpty | bracketsNotDistinct | separatorInBrackets | unclosedBracket => .badValue
  | unknownInstr _ | notABranch _ | badVersion _ _ | commandLength => .badValue
  | preambleUnknown _ | preambleRepeated _ | badMacroKey _ | duplicateMacroKeys _ =>
    .badInstruction
  | noRegistersLeft => .failure
  | _ => .badText

def message : LanguageFault → String
  | separatorNotText => "seperator should be a string"
  | separatorEmpty => "seperator should contain at least one character"
  | bracketsNotText => "brackets should be a string"
  | bracketsNotDistinct => "brackets should be two unique characters"
  | separatorInBrackets => "seperator should not be part of brackets"
  | unclosedBracket => "Not a valid string, could not find a closing bracket"
  | noEndBracket word bracket => s!"No end bracket in {word}, expected '{bracket}'"
  | badRegisterName name => s!"{name} is not a valid register name"
  | expectedConstant word => s!"Expected constant, got {word}"
  | expectedAddress word => s!"Expected address, got {word}"
  | addressIsRegister =>
    "Address should be an int, not a <class 'netqasm.lang.operand.Register'>"
  | notAValue word => s!"{word} is not a valid value in this case"
  | badLabel name => s!"The branch label {name} is not a valid label"
  | duplicateLabel name => s!"branch labels need to be unique, name {name} already used"
  | unknownInstr name => s!"Unknown instruction {name}"
  | notABranch name => s!"Not a branch instruction GenericInstr.{name}"
  | preambleAfterBody => "Cannot have a preamble line after instructions"
  | preambleWords cause => s!"Could not parse preamble instruction, since: {cause}"
  | preambleUnknown name => s!"The instruction {name} is not a valid preamble instruction"
  | preambleRepeated name => s!"Preamble should contain exactly one f{name} instruction"
  | preambleArgument name words =>
    let count := words.length
    let shown := Text.Quoted.list words
    s!"Preamble instruction {name} should contain exactly one argument, not {count} as in '{shown}'"
  | macroArguments words =>
    let count := words.length
    let shown := Text.Quoted.list words
    s!"Preamble instruction DEFINE should contain exactly two argument, not {count} as in '{shown}'"
  | badMacroKey key => s!"{key} is not a valid macro key"
  | duplicateMacroKeys keys =>
    let shown := Text.Quoted.list keys
    s!"Macro keys need to be unique, not {shown}"
  | badVersion text cause =>
    let reason := cause.message
    s!"Could not parse netqasm version {text} since: {reason}"
  | noRegistersLeft => "Could not replace constant since no registers left"
  | commandLength => "Length of data not a multiple of command length"

end LanguageFault

inductive MappingFault
  | noRegister
  | badMove (source target : Int)
  | unknownInstr (instr kind : String)
  | badExponent (instr exponent : String)
  | noAxis
  | noAngle
  | notAGate (name : String)
  | notAnArray
  | notTwoByTwo
  | notNormalized
  | numeratorTooLarge
  deriving DecidableEq

namespace MappingFault

def category : MappingFault → Category
  | noRegister | badMove _ _ => .failure
  | unknownInstr _ _ | badExponent _ _ | noAxis | notAGate _ => .badValue
  | noAngle => .badType
  | notAnArray | notTwoByTwo | notNormalized | numeratorTooLarge => .violation

def message : MappingFault → String
  | noRegister => "Could not find free register"
  | badMove source target => s!"Cannot move qubit {source} to {target}"
  | unknownInstr instr kind =>
    s!"Don't know how to map instruction {instr} of type <class 'netqasm.lang.instr.{kind}'>"
  | badExponent instr exponent =>
    s!"Instruction {instr} not supported: angle_denom is {exponent}."
  | noAxis => "Axis need to have non-negative norm"
  | noAngle => "To get the matrix of a rotation an angle needs to be specified"
  | notAGate name => s!"GenericInstr.{name} is not a quantum gate"
  | notAnArray => "mat should be instance of numpy.ndarray"
  | notTwoByTwo => "mat should be a 2x2 matrix"
  | notNormalized => "mat not normalized"
  | numeratorTooLarge => "Something went wrong, n is bigger than n_max"

end MappingFault

---- Nodes, links, networks and channels

inductive NodeFault
  | registerIndex (index : Int)
  | tooWide (value : Int)
  | noArray (address : Int)
  | noArrayAddress
  | entryIndex (index address : Int)
  | wrongLength
  | notAList (type : String)
  | badKey (key : String)
  | wholeArray
  | memoryExists (node key : String)
  | qubitAddressUndefined (reg : String)
  | registerUndefined (reg : String)
  | entryUndefined (entry : String)
  | indexUndefined (reg : String)
  | modulus (value : Int)
  | returnUndefined (reg : String)
  | unknownInstr (kind : String)
  | noUnitModule (appId : Int)
  | outsideUnitModule (address : Int) (size : Nat)
  | notAllocated (address appId : Int) (node : String)
  | addressOutside (address appId : Int) (size : Nat)
  | alreadyAllocated (address appId : Int)
  | notAllocatedToFree (address appId : Int)
  | unknownSubroutine (id : Int)
  | noSubroutineNorApp
  | noStack
  | notAStack (type : String)
  | argumentCount (count : Nat)
  | qubitCount
  | sliceNotAList
  | noSlice (slice : String)
  | virtualUndefined
  | linkError (response : String)
  | appWithoutArrays
  | badEntry (entry : String)
  | payloadType (type : String)
  deriving DecidableEq

namespace NodeFault

def category : NodeFault → Category
  | registerIndex _ | noArray _ | noArrayAddress | entryIndex _ _ | outsideUnitModule _ _ => .outOfBounds
  | tooWide _ => .overflow
  | wrongLength | qubitCount => .violation
  | notAList _ | badKey _ | notAStack _ | badEntry _ | payloadType _ => .badType
  | wholeArray | addressOutside _ _ _ | unknownSubroutine _ | noSubroutineNorApp
  | argumentCount _ => .badValue
  | notAllocated _ _ _ => .unallocated
  | appWithoutArrays => .missingKey
  | _ => .failure

def message : NodeFault → String
  | registerIndex i => s!"index {i} is not within 0 and 16"
  | tooWide v => s!"value {v} does not fit into 32 bits"
  | noArray a => s!"No array with address {a}"
  | noArrayAddress => "No array with address None"
  | entryIndex i a => s!"index {i} is out of range for array with address {a}"
  | wrongLength => "value not of correct length"
  | notAList type => s!"expected 'list', not {type}"
  | badKey key => s!"Cannot use {key} of type <class 'tuple'> as an index"
  | wholeArray => "Can only access entries and slices of arrays, not the full array"
  | memoryExists node key =>
    s!"Shared memory for (node, key): ({node}, {key}) already exists."
  | qubitAddressUndefined reg => s!"qubit address in register {reg} is not defined"
  | registerUndefined reg => s!"value in register {reg} is not defined"
  | entryUndefined entry => s!"array value at {entry} is not defined"
  | indexUndefined reg =>
    s!"Trying to use register {reg} to index an array but its value is None"
  | modulus v => s!"Modulus needs to be greater or equal to 1, not {v}"
  | returnUndefined reg => s!"Trying to return register {reg} but it does not have value"
  | unknownInstr kind => s!"unknown instr type: <class 'netqasm.lang.instr.{kind}'>"
  | noUnitModule a => s!"Application with app ID {a} has not allocated qubit unit module"
  | outsideUnitModule address size =>
    s!"The address {address} is not within the allocated unit module of size {size}"
  | notAllocated address a node =>
    s!"The qubit with address {address} was not allocated for app ID {a} for node {node}"
  | addressOutside address a size =>
    s!"Virtual address {address} is outside the unit module (app ID {a}) which has length {size}"
  | alreadyAllocated address a =>
    s!"QubitAddress at address {address} for application {a} is already allocated"
  | notAllocatedToFree address a =>
    s!"QubitAddress at address {address} for application {a} is not allocated and cannot be freed"
  | unknownSubroutine id => s!"Unknown subroutine with ID {id}"
  | noSubroutineNorApp => "subroutine_id and app_id cannot both be None"
  | noStack => "SubroutineHandler has no network stack"
  | notAStack type => s!"network_stack must be an instance of BaseNetworkStack, not {type}"
  | argumentCount n => s!"Expected 22 arguments, but got {n}"
  | qubitCount => "Not enough qubit addresses"
  | sliceNotAList =>
    "Something went wrong: values should be a list but it is a <class 'NoneType'>"
  | noSlice slice => s!"array slice {slice} does not exist"
  | virtualUndefined => "virtual address is None"
  | linkError response => s!"Got the following error from the network stack: {response}"
  | appWithoutArrays => "App ID \x7bapp_id\x7d does not have any arrays"
  | badEntry entry => s!"Cannot update shared memory with entry specified as {entry}"
  | payloadType type => s!"subroutine should be Subroutine or bytes, not {type}"

end NodeFault

inductive LinkFault
  | badRequest (request : String)
  | badResponse (response : String)
  deriving DecidableEq

namespace LinkFault

def category : LinkFault → Category
  | _ => .badValue

def message : LinkFault → String
  | badRequest r => s!"Cannot convert request {r} to qlink-interface 1.0"
  | badResponse r => s!"Cannot convert response {r} from qlink-interface 1.0"

end LinkFault

inductive NetworkFault
  | keyMissing (key : String)
  deriving DecidableEq

namespace NetworkFault

def category : NetworkFault → Category
  | keyMissing _ => .badValue

def message : NetworkFault → String
  | keyMissing key => s!"Invalid network configuration: key not found: {key}"

end NetworkFault

inductive ChannelFault
  | ownPartner (app remote : String)
  | notText (type : String)
  | disconnected
  | nothingToReceive (socket : String)
  | receiveTimedOut (socket : String)
  | connectTimedOut (app remote : String) (id : Int)
  | nothingBroadcast
  | broadcastTimedOut
  deriving DecidableEq

namespace ChannelFault

def category : ChannelFault → Category
  | ownPartner _ _ => .badValue
  | notText _ => .badType
  | disconnected => .connection
  | nothingToReceive _ | nothingBroadcast => .failure
  | receiveTimedOut _ | connectTimedOut _ _ _ | broadcastTimedOut => .timedOut

def message : ChannelFault → String
  | ownPartner app remote =>
    s!"Cannot connect to itself app_name {app} = remote_app_name {remote}"
  | notText type => s!"Messages needs to be a string, not {type}"
  | disconnected => "Socket is not connected so cannot send"
  | nothingToReceive socket => s!"No message to receive on socket {socket}"
  | receiveTimedOut socket => s!"Timeout while trying to receive message for socket {socket}"
  | connectTimedOut app remote id =>
    s!"Timeout while connection node ID {app} to {remote} using socket {id}"
  | nothingBroadcast => "No message broadcasted"
  | broadcastTimedOut => "Timeout while trying to receive broadcasted message"

end ChannelFault

---- Sessions and applications

inductive SessionFault
  | badLength (length : String)
  | badArrayValues
  | registerActive (register : String)
  | noRegister
  | noOutcomeRegister
  | variableIndex
  | noValue (future : String)
  | twoFutures
  | badAddend
  | registerUnknown
  | badIndexType (type : String)
  | badIndex (index : String)
  | badSlice (type : String)
  | badAngle (numerator exponent : String)
  | lostContext
  | lostLoop
  | badLoopRegister (type : String)
  | badComparand (type : String)
  | badConstraint
  | needsRoutine
  | tooManyPairs (number limit : Int)
  | noSharedMemory
  | ownSocket
  | appIdTaken (id : Int)
  | unknownNodeName (name : String)
  | unknownNodeId (id : String)
  | badFidelity (value : String)
  | notConnected
  | noRemoteNode
  | inactiveQubit (id : String)
  | notAQubitId
  | notAFlag
  | basesDiffer (localBasis remoteBasis : String)
  | basisUnknown
  | outcomeOpen
  | pauliCount
  | pauliLetters
  | noPartners
  | noFrame (directory : String)
  | noDirectory
  | futureQubit
  deriving DecidableEq

namespace SessionFault

def category : SessionFault → Category
  | badLength _ | registerUnknown | badIndex _ | badLoopRegister _ | badConstraint
  | notAQubitId | notAFlag => .violation
  | badArrayValues | badIndexType _ | badComparand _ | noPartners => .badType
  | registerActive _ | badAngle _ _ | needsRoutine | tooManyPairs _ _ | ownSocket | appIdTaken _
  | unknownNodeName _ | unknownNodeId _ | badFidelity _ | outcomeOpen | pauliCount
  | pauliLetters => .badValue
  | noRegister | noOutcomeRegister | twoFutures | lostContext | lostLoop | noSharedMemory
  | notConnected | noRemoteNode | basesDiffer _ _ | basisUnknown | noFrame _
  | noDirectory => .failure
  | badAddend | badSlice _ | futureQubit => .unimplemented
  | variableIndex => .variableIndex
  | noValue _ => .noValueYet
  | inactiveQubit _ => .inactiveQubit

def message : SessionFault → String
  | badLength length => s!"{length} is not a valid length"
  | badArrayValues => "Array needs to consist of int's or None's"
  | registerActive register => s!"Register {register} is already active"
  | noRegister => "could not find an available loop register"
  | noOutcomeRegister => "Ran out of M-registers"
  | variableIndex => "index is not constant and cannot be resolved"
  | noValue future =>
    s!"The object '{future}' has no value yet, consider flusing the current subroutine"
  | twoFutures =>
    "Cannot directly do a binary operation on two Futures. Convert them to `int`s first."
  | badAddend => "for type \x7btype(other)\x7d"
  | registerUnknown => "Trying to use RegFuture that has no value yet"
  | badIndexType type => s!"Cannot use type {type} as index to load future"
  | badIndex index => s!"index type {index} not supported"
  | badSlice type =>
    s!"Future slices can only be specified by integers at this point, not {type}"
  | badAngle numerator exponent =>
    s!"{numerator} * pi / 2 ^ {exponent} is not a valid angle specification"
  | lostContext => "Something went wrong, no pre_context_commands"
  | lostLoop => "Something went wrong, no pre_commands"
  | badLoopRegister type => s!"not a valid loop_register with type {type}"
  | badComparand type => s!"Cannot do conditional statement with type {type}"
  | badConstraint => "not supported"
  | needsRoutine =>
    "When using sequential mode with more than one pair a post_routine needs to be specified "
      ++ "which consumes the generated pair as they come in."
  | tooManyPairs number limit =>
    s!"When not using sequential mode for K type, the number of pairs {number} cannot be "
      ++ s!"greater than the maximum number of qubits specified ({limit})."
  | noSharedMemory => "Trying to access connection's shared memory, but it does not exist"
  | ownSocket => "A node cannot setup an EPR socket with itself"
  | appIdTaken id => s!"app_id={id} is already in use"
  | unknownNodeName name => s!"{name} is not a known node name"
  | unknownNodeId id => s!"{id} is not a known node ID"
  | badFidelity value => s!"min_fidelity must be an integer in the range [0, 100], not {value}"
  | notConnected => "EPRSocket does not have an open connection"
  | noRemoteNode => "Remote Node ID has not been initialized"
  | inactiveQubit id => s!"Qubit {id} is not active"
  | notAQubitId => "qubit_id should be an int"
  | notAFlag => "active shoud be a bool"
  | basesDiffer localBasis remoteBasis =>
    s!"The local and remote measurement bases are not equal (local={localBasis}, "
      ++ s!"remote={remoteBasis}. Post-processed measurement outcome is not available. "
      ++ "Use `raw_measurement_outcome` in combination with `measurement_basis_local` "
      ++ "to interpret the outcome instead."
  | basisUnknown =>
    "The measurement basis is not one of X, Y, or Z (instead it is None. "
      ++ "Post-processed measurement outcome is not available. Use `raw_measurement_outcome "
      ++ "in combination with `measurement_basis_local` to interpet the outcome instead."
  | outcomeOpen =>
    "The `measurement_outcome` property can only be used after the subroutine that produces "
      ++ "this outcome has been flushed. This is because classical post-processing is done "
      ++ "which can only happen when the outcome is available. To use the outcome as a future "
      ++ "(without post-processing), use the `raw_measurement_outcome` attribute."
  | pauliCount => "Number of bases needs to be the number of qubits."
  | pauliLetters => "All elements of bases need to be in 'IXYZ'."
  | noPartners => "Both down_epr_socket and up_epr_socket cannot be None"
  | noFrame directory => s!"No frame found in directory {directory}"
  | noDirectory => "Cannot create Linetracker because app_dir is None"
  | futureQubit => "Cannot access entanglement info of a future qubit yet"

end SessionFault

inductive AppFault
  | noPrograms (directory : String)
  | folderExists
  | noMain (file : String)
  | noFile (path : String)
  | runsNotInDebug
  | unknownNode (node : String)
  | severalApps
  | oneLogArgument
  | simulatorMissing (simulator package : String)
  | hardwareMissing
  | onlySimulated (function : String)
  | badLoggerName (type : String)
  deriving DecidableEq

namespace AppFault

def category : AppFault → Category
  | noPrograms _ | noFile _ | unknownNode _ | severalApps => .badValue
  | folderExists | oneLogArgument => .violation
  | noMain _ | onlySimulated _ => .failure
  | runsNotInDebug => .unimplemented
  | simulatorMissing _ _ | hardwareMissing => .missingModule
  | badLoggerName _ => .badType

def message : AppFault → String
  | noPrograms directory =>
    s!"directory {directory} does not seem to be a application directory (no app_xxx.py files)"
  | folderExists => "Destination already exists"
  | noMain file => s!"File `{file}` does not have a `main`-function"
  | noFile path => s!"Could not read file {path} since it does not exist."
  | runsNotInDebug => "Running applications in debug mode not yet supported"
  | unknownNode node =>
    s!"Node {node} has logged instructions, but no app ID is known to have run on this node."
  | severalApps => "Logging does not currently support multiple apps per node."
  | oneLogArgument => "AppLogger only takes on argument"
  | simulatorMissing simulator package =>
    s!"to use {simulator} as simulator, `{package}` needs to be installed"
  | hardwareMissing => "to use QNodeOS , `qnodeos` needs to be installed"
  | onlySimulated function => s!"`{function}` function only possible with NetSquid simulator"
  | badLoggerName type => s!"sub_logger should be None or str, not {type}"

end AppFault

---- Faults of all kinds

-- Causes for which an operation is refused. A fault in a running subroutine is reported with the
-- line it arose at.
inductive Fault
  | unexplained (category : Category)
  | language (cause : LanguageFault)
  | node (cause : NodeFault)
  | link (cause : LinkFault)
  | mapping (cause : MappingFault)
  | session (cause : SessionFault)
  | channel (cause : ChannelFault)
  | network (cause : NetworkFault)
  | app (cause : AppFault)
  | atLine (line : Int) (cause : Fault)
  deriving DecidableEq

namespace Fault

def category : Fault → Category
  | unexplained c => c
  | language f => f.category
  | node f => f.category
  | link f => f.category
  | mapping f => f.category
  | session f => f.category
  | channel f => f.category
  | network f => f.category
  | app f => f.category
  | atLine _ f => f.category

def message? : Fault → Option String
  | unexplained _ => none
  | language f => some f.message
  | node f => some f.message
  | link f => some f.message
  | mapping f => some f.message
  | session f => some f.message
  | channel f => some f.message
  | network f => some f.message
  | app f => some f.message
  | atLine n f =>
    if f.category = .blocked ∨ f.category = .stepLimit then none
    else
      match f.message? with
      | some m => some s!"At line {n}: {m}"
      | none => some s!"At line {n}"

-- A condition that the library takes for granted does not hold.
abbrev unmet : Fault := .unexplained .violation

abbrev noIndex : Fault := .unexplained .outOfBounds

abbrev noKey : Fault := .unexplained .missingKey

abbrev noAttribute : Fault := .unexplained .missingAttribute

-- A value of a type that the operation does not take.
abbrev mistyped : Fault := .unexplained .badType

abbrev malformed : Fault := .unexplained .badValue

end Fault

abbrev Checked (α : Type) := Except Fault α

def demand (condition : Bool) (fault : Fault) : Checked Unit :=
  if condition then .ok () else .error fault

end QuantumNode
