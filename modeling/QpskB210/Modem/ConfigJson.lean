import QpskB210.Modem.RuntimeConfig

/-!
# Modem — ConfigJson

The configuration file: `to_json` and `from_json`, over the values of
`nlohmann::json`. The text format is a parameter: `dump` and `parse` go from a
document to its text and back.
-/

namespace QpskB210.Modem

/-- `nlohmann::json`. An object is a map, its order is not that of the text. -/
inductive Json where
  | null
  | boolean (b : Bool)
  | integer (n : Int)
  | float (x : ℚ)
  | string (s : String)
  | array (items : List Json)
  | object (fields : String → Option Json)

inductive ConfigError where
  | invalidArgument (e : InvalidArgument)
  /-- The exception of a `get` whose type does not match. -/
  | typeError (expected : String) (got : String)
deriving DecidableEq, Repr

namespace Json

def typeName : Json → String
  | .null => "null"
  | .boolean _ => "boolean"
  | .integer _ => "number"
  | .float _ => "number"
  | .string _ => "string"
  | .array _ => "array"
  | .object _ => "object"

def isNumber : Json → Bool
  | .integer _ => true
  | .float _ => true
  | _ => false

def isNumberInteger : Json → Bool
  | .integer _ => true
  | _ => false

def isString : Json → Bool
  | .string _ => true
  | _ => false

def isBoolean : Json → Bool
  | .boolean _ => true
  | _ => false

def isArray : Json → Bool
  | .array _ => true
  | _ => false

/-- `get<double>`. -/
def getDouble : Json → Except ConfigError ℚ
  | .integer n => .ok n
  | .float x => .ok x
  | v => .error (.typeError "number" v.typeName)

/-- `get` of an integer type, before the cast to it. -/
def getInteger : Json → Except ConfigError Int
  | .boolean b => .ok b.toInt
  | .integer n => .ok n
  | .float x => .ok (RuntimeConfig.truncate x)
  | v => .error (.typeError "number" v.typeName)

def getInt (v : Json) : Except ConfigError Int32 := Int32.ofInt <$> v.getInteger

def getUInt16 (v : Json) : Except ConfigError UInt16 := UInt16.ofInt <$> v.getInteger

def getUInt8 (v : Json) : Except ConfigError UInt8 := UInt8.ofInt <$> v.getInteger

/-- `get<std::string>`. -/
def getString : Json → Except ConfigError String
  | .string s => .ok s
  | v => .error (.typeError "string" v.typeName)

def getBool : Json → Except ConfigError Bool
  | .boolean b => .ok b
  | v => .error (.typeError "boolean" v.typeName)

/-- `get<std::vector<uint8_t>>`. -/
def getBytes : Json → Except ConfigError (List UInt8)
  | .array items => items.mapM getUInt8
  | v => .error (.typeError "array" v.typeName)

end Json

/-- The members of an object. -/
abbrev Fields := String → Option Json

/-- `j[field] = value`. -/
def Fields.set (fields : Fields) (field : String) (value : Json) : Fields :=
  fun name => if name = field then some value else fields name

/-- `std::invalid_argument` with one text. -/
def invalidArgument {α : Type} (message : String) : Except ConfigError α :=
  .error (.invalidArgument ⟨[.text message]⟩)

def codeRateToString : CodeRate → String
  | .rate12 => "1/2"
  | .rate34 => "3/4"

def stringToCodeRate (s : String) : Except ConfigError CodeRate :=
  if s = "1/2" then .ok .rate12
  else if s = "3/4" then .ok .rate34
  else
    invalidArgument
      ("Invalid fec_code_rate value '" ++ s ++ "'. Supported values: \"1/2\", \"3/4\"")

/-! ## Writing -/

namespace RuntimeConfig

def fields (cfg : RuntimeConfig) : Fields :=
  let empty : Fields := fun _ => none
  empty
    |>.set "center_freq" (.float cfg.centerFreq)
    |>.set "sample_rate" (.float cfg.sampleRate)
    |>.set "tx_gain" (.float cfg.txGain)
    |>.set "rx_gain" (.float cfg.rxGain)
    |>.set "tx_antenna" (.string cfg.txAntenna)
    |>.set "rx_antenna" (.string cfg.rxAntenna)
    |>.set "samples_per_symbol" (.integer cfg.samplesPerSymbol.toInt)
    |>.set "rrc_rolloff" (.float cfg.rrcRolloff)
    |>.set "rrc_span_symbols" (.integer cfg.rrcSpanSymbols.toInt)
    |>.set "preamble" (.array (cfg.preamble.map fun byte => .integer byte.toNat))
    |>.set "tcp_input_addr" (.string cfg.tcpInputAddr)
    |>.set "tcp_input_port" (.integer cfg.tcpInputPort.toNat)
    |>.set "tcp_output_addr" (.string cfg.tcpOutputAddr)
    |>.set "tcp_output_port" (.integer cfg.tcpOutputPort.toNat)
    |>.set "fec_enabled" (.boolean cfg.fecEnabled)
    |>.set "fec_code_rate" (.string (codeRateToString cfg.fecCodeRate))
    |>.set "acquisition_symbols" (.integer cfg.acquisitionSymbols.toInt)
    |>.set "ramp_symbols" (.integer cfg.rampSymbols.toInt)

/-- What `to_json` finds of its output file. -/
structure OutputFile where
  isOpen : Bool := true
  good : Bool := true

/-- `to_json`, with the text it writes. -/
def toJson (dump : Json → String) (path : String) (ofs : OutputFile) (cfg : RuntimeConfig) :
    Except ConfigError String :=
  if !ofs.isOpen then invalidArgument ("Failed to open file for writing: " ++ path)
  else if !ofs.good then invalidArgument ("Failed to write JSON to file: " ++ path)
  else .ok (dump (.object cfg.fields))

end RuntimeConfig

/-! ## Reading -/

namespace Fields

/-- `require_field`. -/
def requireField (j : Fields) (field : String) : Except ConfigError Json :=
  match j field with
  | none => invalidArgument ("Missing required field '" ++ field ++ "' in configuration JSON")
  | some v => .ok v

/-- `check_type`. -/
def checkType (field expectedType : String) (predicate : Json → Bool) (v : Json) :
    Except ConfigError Unit :=
  if !predicate v then
    invalidArgument
      ("Field '" ++ field ++ "' must be " ++ expectedType ++ ", got " ++ v.typeName)
  else .ok ()

variable {α : Type}

/-- A field that must be there. -/
def required (j : Fields) (field expectedType : String) (predicate : Json → Bool)
    (get : Json → Except ConfigError α) : Except ConfigError α := do
  let v ← j.requireField field
  checkType field expectedType predicate v
  get v

/-- A field with a default. -/
def optional (j : Fields) (field expectedType : String) (predicate : Json → Bool)
    (get : Json → Except ConfigError α) (default : α) : Except ConfigError α :=
  match j field with
  | none => .ok default
  | some v => do
    checkType field expectedType predicate v
    get v

def number (j : Fields) (field : String) : Except ConfigError ℚ :=
  j.required field "a number" Json.isNumber Json.getDouble

def string (j : Fields) (field : String) : Except ConfigError String :=
  j.required field "a string" Json.isString Json.getString

def integer (j : Fields) (field : String) (get : Json → Except ConfigError α) :
    Except ConfigError α :=
  j.required field "an integer" Json.isNumberInteger get

end Fields

/-- What `from_json` does with the members of the object. -/
def readConfig (j : Fields) : Except ConfigError RuntimeConfig := do
  let centerFreq ← j.number "center_freq"
  let sampleRate ← j.number "sample_rate"
  let txGain ← j.number "tx_gain"
  let rxGain ← j.number "rx_gain"
  let txAntenna ← j.string "tx_antenna"
  let rxAntenna ← j.string "rx_antenna"
  let samplesPerSymbol ← j.integer "samples_per_symbol" Json.getInt
  let rrcRolloff ← j.number "rrc_rolloff"
  let rrcSpanSymbols ← j.integer "rrc_span_symbols" Json.getInt
  let preamble ← j.required "preamble" "an array" Json.isArray Json.getBytes
  let tcpInputAddr ← j.string "tcp_input_addr"
  let tcpInputPort ← j.integer "tcp_input_port" Json.getUInt16
  let tcpOutputAddr ← j.string "tcp_output_addr"
  let tcpOutputPort ← j.integer "tcp_output_port" Json.getUInt16
  let fecEnabled ← j.required "fec_enabled" "a boolean" Json.isBoolean Json.getBool
  let fecCodeRate ← j.string "fec_code_rate" >>= stringToCodeRate
  let acquisitionSymbols ←
    j.optional "acquisition_symbols" "an integer" Json.isNumberInteger Json.getInt 128
  let rampSymbols ← j.optional "ramp_symbols" "an integer" Json.isNumberInteger Json.getInt 8
  let cfg : RuntimeConfig :=
    { centerFreq, sampleRate, txGain, rxGain, txAntenna, rxAntenna, samplesPerSymbol, rrcRolloff
      rrcSpanSymbols, preamble, tcpInputAddr, tcpInputPort, tcpOutputAddr, tcpOutputPort
      fecEnabled, fecCodeRate, acquisitionSymbols, rampSymbols }
  match cfg.validate with
  | .error e => .error (.invalidArgument e)
  | .ok () => .ok cfg

/-- `from_json`; the file is `none` if it cannot be opened. -/
def fromJson (parse : String → Except String Json) (path : String) (file : Option String) :
    Except ConfigError RuntimeConfig :=
  match file with
  | none => invalidArgument ("Failed to open configuration file: " ++ path)
  | some text =>
    match parse text with
    | .error what => invalidArgument ("Failed to parse JSON from file: " ++ what)
    | .ok (.object fields) => readConfig fields
    | .ok _ => invalidArgument "Configuration JSON must be an object"

/-! ## Round trip -/

namespace Json

@[simp]
theorem getInt_integer (x : Int32) : getInt (.integer x.toInt) = .ok x := by
  simp [getInt, getInteger, Functor.map, Except.map]

@[simp]
theorem getUInt16_integer (x : UInt16) : getUInt16 (.integer x.toNat) = .ok x := by
  have hlt := x.toNat_lt
  have hvalue : UInt16.ofInt x.toNat = x := by
    rw [UInt16.ofInt, Int.emod_eq_of_lt (by omega) (by omega), Int.toNat_natCast,
      UInt16.ofNat_toNat]
  simp [getUInt16, getInteger, Functor.map, Except.map, hvalue]

@[simp]
theorem getUInt8_integer (x : UInt8) : getUInt8 (.integer x.toNat) = .ok x := by
  have hlt := x.toNat_lt
  have hvalue : UInt8.ofInt x.toNat = x := by
    rw [UInt8.ofInt, Int.emod_eq_of_lt (by omega) (by omega), Int.toNat_natCast,
      UInt8.ofNat_toNat]
  simp [getUInt8, getInteger, Functor.map, Except.map, hvalue]

@[simp]
theorem getBytes_array (bytes : List UInt8) :
    getBytes (.array (bytes.map fun byte => .integer byte.toNat)) = .ok bytes := by
  rw [getBytes]
  induction bytes with
  | nil => rfl
  | cons byte bytes ih =>
      rw [List.map_cons, List.mapM_cons, getUInt8_integer, ih]
      rfl

end Json

@[simp]
theorem stringToCodeRate_codeRateToString (rate : CodeRate) :
    stringToCodeRate (codeRateToString rate) = .ok rate := by
  cases rate <;> rfl

namespace Fields

/-- An object with these members, written one after the other. -/
def ofEntries (entries : List (String × Json)) : Fields :=
  entries.foldl (fun fields entry => fields.set entry.1 entry.2) fun _ => none

theorem get_ofEntries {entries : List (String × Json)}
    (hnodup : (entries.map Prod.fst).Nodup) :
    ∀ entry ∈ entries, ofEntries entries entry.1 = some entry.2 := by
  induction entries using List.reverseRecOn with
  | nil =>
      intro entry hentry
      cases hentry
  | append_singleton entries last ih =>
      rw [List.map_append, List.nodup_append] at hnodup
      obtain ⟨hinit, -, hlast⟩ := hnodup
      intro entry hentry
      rw [ofEntries, List.foldl_append, List.foldl_cons, List.foldl_nil, set]
      rcases List.mem_append.mp hentry with hentry | hentry
      · have hne : entry.1 ≠ last.1 :=
          hlast _ (List.mem_map_of_mem hentry) _ (List.mem_singleton_self last.1)
        rw [if_neg hne]
        exact ih hinit entry hentry
      · rw [List.mem_singleton.mp hentry, if_pos rfl]

variable {α : Type} {j : Fields} {field : String} {v : Json}

theorem required_eq {expectedType : String} {predicate : Json → Bool}
    {get : Json → Except ConfigError α} (h : j field = some v) (hv : predicate v = true) :
    j.required field expectedType predicate get = get v := by
  simp [required, requireField, checkType, h, hv, bind, Except.bind]

theorem optional_eq {expectedType : String} {predicate : Json → Bool}
    {get : Json → Except ConfigError α} {default : α} (h : j field = some v)
    (hv : predicate v = true) : j.optional field expectedType predicate get default = get v := by
  simp [optional, checkType, h, hv, bind, Except.bind]

theorem number_eq {x : ℚ} (h : j field = some (.float x)) : j.number field = .ok x :=
  required_eq h rfl

theorem string_eq {x : String} (h : j field = some (.string x)) : j.string field = .ok x :=
  required_eq h rfl

theorem integer_eq {x : Int} {get : Json → Except ConfigError α}
    (h : j field = some (.integer x)) : j.integer field get = get (.integer x) :=
  required_eq h rfl

end Fields

theorem ok_bind {α β : Type} (a : α) (f : α → Except ConfigError β) : (.ok a >>= f) = f a := rfl

namespace RuntimeConfig

/-- What is left of a configuration after a round trip. -/
def saved (cfg : RuntimeConfig) : RuntimeConfig where
  centerFreq := cfg.centerFreq
  sampleRate := cfg.sampleRate
  txGain := cfg.txGain
  rxGain := cfg.rxGain
  txAntenna := cfg.txAntenna
  rxAntenna := cfg.rxAntenna
  samplesPerSymbol := cfg.samplesPerSymbol
  rrcRolloff := cfg.rrcRolloff
  rrcSpanSymbols := cfg.rrcSpanSymbols
  preamble := cfg.preamble
  acquisitionSymbols := cfg.acquisitionSymbols
  rampSymbols := cfg.rampSymbols
  tcpInputAddr := cfg.tcpInputAddr
  tcpInputPort := cfg.tcpInputPort
  tcpOutputAddr := cfg.tcpOutputAddr
  tcpOutputPort := cfg.tcpOutputPort
  fecEnabled := cfg.fecEnabled
  fecCodeRate := cfg.fecCodeRate

/-- The members of the object, as they are written. -/
def entries (cfg : RuntimeConfig) : List (String × Json) :=
  [("center_freq", .float cfg.centerFreq),
    ("sample_rate", .float cfg.sampleRate),
    ("tx_gain", .float cfg.txGain),
    ("rx_gain", .float cfg.rxGain),
    ("tx_antenna", .string cfg.txAntenna),
    ("rx_antenna", .string cfg.rxAntenna),
    ("samples_per_symbol", .integer cfg.samplesPerSymbol.toInt),
    ("rrc_rolloff", .float cfg.rrcRolloff),
    ("rrc_span_symbols", .integer cfg.rrcSpanSymbols.toInt),
    ("preamble", .array (cfg.preamble.map fun byte => .integer byte.toNat)),
    ("tcp_input_addr", .string cfg.tcpInputAddr),
    ("tcp_input_port", .integer cfg.tcpInputPort.toNat),
    ("tcp_output_addr", .string cfg.tcpOutputAddr),
    ("tcp_output_port", .integer cfg.tcpOutputPort.toNat),
    ("fec_enabled", .boolean cfg.fecEnabled),
    ("fec_code_rate", .string (codeRateToString cfg.fecCodeRate)),
    ("acquisition_symbols", .integer cfg.acquisitionSymbols.toInt),
    ("ramp_symbols", .integer cfg.rampSymbols.toInt)]

def fieldNames : List String :=
  ["center_freq", "sample_rate", "tx_gain", "rx_gain", "tx_antenna", "rx_antenna",
    "samples_per_symbol", "rrc_rolloff", "rrc_span_symbols", "preamble", "tcp_input_addr",
    "tcp_input_port", "tcp_output_addr", "tcp_output_port", "fec_enabled", "fec_code_rate",
    "acquisition_symbols", "ramp_symbols"]

theorem nodup_fieldNames : fieldNames.Nodup := by decide +kernel

/-- Each member is read back as it was written. -/
theorem get_fields (cfg : RuntimeConfig) :
    ∀ entry ∈ cfg.entries, cfg.fields entry.1 = some entry.2 := by
  have hnames : cfg.entries.map Prod.fst = fieldNames := rfl
  exact Fields.get_ofEntries (hnames ▸ nodup_fieldNames)

theorem readConfig_fields {cfg : RuntimeConfig} (h : cfg.validate = .ok ()) :
    readConfig cfg.fields = .ok cfg.saved := by
  have hsaved : cfg.saved.validate = .ok () := h
  have hget := cfg.get_fields
  simp only [entries, List.forall_mem_cons] at hget
  obtain ⟨hcenter, hsample, htx, hrx, htxAntenna, hrxAntenna, hsps, hrolloff, hspan, hpreamble,
    hinAddr, hinPort, houtAddr, houtPort, hfec, hrate, hacquisition, hramp, -⟩ := hget
  rw [readConfig, Fields.number_eq hcenter, ok_bind, Fields.number_eq hsample, ok_bind,
    Fields.number_eq htx, ok_bind, Fields.number_eq hrx, ok_bind, Fields.string_eq htxAntenna,
    ok_bind, Fields.string_eq hrxAntenna, ok_bind, Fields.integer_eq hsps, Json.getInt_integer,
    ok_bind, Fields.number_eq hrolloff, ok_bind, Fields.integer_eq hspan, Json.getInt_integer,
    ok_bind, Fields.required_eq hpreamble rfl, Json.getBytes_array, ok_bind,
    Fields.string_eq hinAddr, ok_bind, Fields.integer_eq hinPort, Json.getUInt16_integer, ok_bind,
    Fields.string_eq houtAddr, ok_bind, Fields.integer_eq houtPort, Json.getUInt16_integer,
    ok_bind, Fields.required_eq hfec rfl, Json.getBool, ok_bind, Fields.string_eq hrate, ok_bind,
    stringToCodeRate_codeRateToString, ok_bind, Fields.optional_eq hacquisition rfl,
    Json.getInt_integer, ok_bind, Fields.optional_eq hramp rfl, Json.getInt_integer, ok_bind]
  show (match cfg.saved.validate with
    | .error e => Except.error (ConfigError.invalidArgument e)
    | .ok () => .ok cfg.saved) = .ok cfg.saved
  rw [hsaved]

/-- The fields that the file does not have, at their defaults. -/
structure Unsaved (cfg : RuntimeConfig) : Prop where
  txFreq : cfg.txFreq = 0
  rxFreq : cfg.rxFreq = 0
  useUdp : cfg.useUdp = false
  udpInputAddr : cfg.udpInputAddr = "127.0.0.1"
  udpInputPort : cfg.udpInputPort = 1113
  udpOutputAddr : cfg.udpOutputAddr = "127.0.0.1"
  udpOutputPort : cfg.udpOutputPort = 1114
  deviceSerial : cfg.deviceSerial = ""

theorem saved_eq_self_iff {cfg : RuntimeConfig} : cfg.saved = cfg ↔ cfg.Unsaved := by
  constructor
  · intro h
    rw [← h]
    constructor <;> rfl
  · intro h
    obtain ⟨htx, hrx, hudp, hinAddr, hinPort, houtAddr, houtPort, hserial⟩ := h
    cases cfg
    subst htx hrx hudp hinAddr hinPort houtAddr houtPort hserial
    rfl

variable (dump : Json → String) (parse : String → Except String Json) {cfg : RuntimeConfig}

/-- The file, written and read again. -/
theorem fromJson_toJson (h : cfg.validate = .ok ())
    (hjson : parse (dump (.object cfg.fields)) = .ok (.object cfg.fields)) (path : String) :
    (do let text ← cfg.toJson dump path {}; fromJson parse path (some text)) =
      .ok cfg.saved := by
  have hwritten : cfg.toJson dump path {} = .ok (dump (.object cfg.fields)) := rfl
  rw [hwritten]
  show fromJson parse path (some (dump (.object cfg.fields))) = .ok cfg.saved
  simp only [fromJson, hjson]
  exact readConfig_fields h

/-- A configuration comes back as it was exactly if the fields that are not
in the file have their defaults. -/
theorem fromJson_toJson_iff (h : cfg.validate = .ok ())
    (hjson : parse (dump (.object cfg.fields)) = .ok (.object cfg.fields)) (path : String) :
    (do let text ← cfg.toJson dump path {}; fromJson parse path (some text)) = .ok cfg ↔
      cfg.Unsaved := by
  rw [fromJson_toJson dump parse h hjson path, Except.ok.injEq, saved_eq_self_iff]

/-- The file of the default configuration. -/
def defaultsText : String :=
  "\x7b\n    \"acquisition_symbols\": 128,\n    \"center_freq\": 2400000000.0,\n" ++
  "    \"fec_code_rate\": \"1/2\",\n    \"fec_enabled\": true,\n" ++
  "    \"preamble\": [\n        1,\n        1,\n        1,\n        1,\n        1,\n" ++
  "        0,\n        0,\n        1,\n        1,\n        0,\n        1,\n        0,\n" ++
  "        1\n    ],\n    \"ramp_symbols\": 8,\n    \"rrc_rolloff\": 0.35,\n" ++
  "    \"rrc_span_symbols\": 6,\n    \"rx_antenna\": \"RX2\",\n    \"rx_gain\": 40.0,\n" ++
  "    \"sample_rate\": 1000000.0,\n    \"samples_per_symbol\": 4,\n" ++
  "    \"tcp_input_addr\": \"127.0.0.1\",\n    \"tcp_input_port\": 5000,\n" ++
  "    \"tcp_output_addr\": \"127.0.0.1\",\n    \"tcp_output_port\": 5001,\n" ++
  "    \"tx_antenna\": \"TX/RX\",\n    \"tx_gain\": 40.0\n\x7d"

/-- What a parser makes of that file. -/
def parseDefaults (text : String) : Except String Json :=
  if text = defaultsText then .ok (.object (fields {})) else .error "parse error"

theorem fromJson_toJson_iff_defaults :
    (do
      let text ← toJson (fun _ => defaultsText) "node.json" {} {}
      fromJson parseDefaults "node.json" (some text)) = .ok {} ↔ Unsaved {} :=
  fromJson_toJson_iff (fun _ => defaultsText) parseDefaults validate_defaults (if_pos rfl)
    "node.json"

/-- The two frequencies of a full-duplex node are lost. -/
def fullDuplex : RuntimeConfig where
  txFreq := 435000000
  rxFreq := 145000000

theorem fromJson_toJson_fullDuplex :
    ¬∀ (dump : Json → String) (parse : String → Except String Json) (cfg : RuntimeConfig)
      (path : String), cfg.validate = .ok () →
        parse (dump (.object cfg.fields)) = .ok (.object cfg.fields) →
          (do let text ← cfg.toJson dump path {}; fromJson parse path (some text)) = .ok cfg := by
  intro hevery
  have hvalid : fullDuplex.validate = .ok () := by decide +kernel
  -- the file is that of the defaults
  have hjson : parseDefaults defaultsText = .ok (.object fullDuplex.fields) := if_pos rfl
  have hkept := hevery (fun _ => defaultsText) parseDefaults fullDuplex "node.json" hvalid hjson
  have hread := fromJson_toJson (fun _ => defaultsText) parseDefaults hvalid hjson "node.json"
  rw [hread, Except.ok.injEq] at hkept
  have hset : fullDuplex.txFreq ≠ 0 := by decide +kernel
  exact hset (saved_eq_self_iff.mp hkept).txFreq

end RuntimeConfig

end QpskB210.Modem
