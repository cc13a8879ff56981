/-!
# LTP — Config

The configuration of an engine and its adapters, and `validate`, which names
every parameter out of range.
-/

namespace QpskB210.Ltp

structure LtpEngineConfig where
  localEngineId : UInt64 := 1
  remoteEngineId : UInt64 := 2
  maxSegmentSize : UInt32 := 1400
  retransmissionTimeoutMs : UInt32 := 30000
  maxRetransmissions : UInt8 := 10
  maxConcurrentSessions : UInt32 := 100
deriving DecidableEq, Repr

structure ClaConfig where
  txAddr : String := "127.0.0.1"
  txPort : UInt16 := 5000
  rxAddr : String := "127.0.0.1"
  rxPort : UInt16 := 5001
  initialReconnectDelayMs : UInt32 := 1000
  maxReconnectDelayMs : UInt32 := 30000
deriving DecidableEq, Repr

structure IngressConfig where
  bindAddr : String := "127.0.0.1"
  port : UInt16 := 4556
  defaultReliable : Bool := true
deriving DecidableEq, Repr

structure EgressConfig where
  bindAddr : String := "127.0.0.1"
  port : UInt16 := 4557
  maxBufferBytes : UInt64 := 10485760
deriving DecidableEq, Repr

structure LtpClaConfig where
  ltp : LtpEngineConfig := {}
  cla : ClaConfig := {}
  ingress : IngressConfig := {}
  egress : EgressConfig := {}
  logLevel : String := "info"
deriving DecidableEq, Repr

namespace LtpClaConfig

/-- `if (bad) errors.push_back(message);` -/
def check (bad : Bool) (message : String) : List String :=
  if bad then [message] else []

def logLevels : List String := ["trace", "debug", "info", "warn", "error", "critical", "off"]

def validateLtp (ltp : LtpEngineConfig) : List String :=
  check (ltp.localEngineId = 0) "ltp.local_engine_id must be > 0, got 0" ++
  check (ltp.remoteEngineId = 0) "ltp.remote_engine_id must be > 0, got 0" ++
  check (ltp.maxSegmentSize = 0) "ltp.max_segment_size must be > 0, got 0" ++
  check (ltp.retransmissionTimeoutMs < 100)
    ("ltp.retransmission_timeout_ms must be >= 100, got " ++
      toString ltp.retransmissionTimeoutMs) ++
  check (ltp.maxRetransmissions = 0) "ltp.max_retransmissions must be > 0, got 0" ++
  check (ltp.maxConcurrentSessions = 0) "ltp.max_concurrent_sessions must be > 0, got 0"

def validateCla (cla : ClaConfig) : List String :=
  check cla.txAddr.isEmpty "cla.tx_addr must not be empty" ++
  check (cla.txPort = 0) "cla.tx_port must be > 0, got 0" ++
  check cla.rxAddr.isEmpty "cla.rx_addr must not be empty" ++
  check (cla.rxPort = 0) "cla.rx_port must be > 0, got 0" ++
  check (cla.initialReconnectDelayMs = 0) "cla.initial_reconnect_delay_ms must be > 0, got 0" ++
  check (cla.maxReconnectDelayMs < cla.initialReconnectDelayMs)
    "cla.max_reconnect_delay_ms must be >= initial_reconnect_delay_ms"

def validateIngress (ingress : IngressConfig) : List String :=
  check ingress.bindAddr.isEmpty "ingress.bind_addr must not be empty"

def validateEgress (egress : EgressConfig) : List String :=
  check egress.bindAddr.isEmpty "egress.bind_addr must not be empty" ++
  check (egress.maxBufferBytes = 0) "egress.max_buffer_bytes must be > 0, got 0"

def validateLogLevel (logLevel : String) : List String :=
  check (logLevel ∉ logLevels)
    ("log_level must be one of: trace, debug, info, warn, error, critical, off; got '" ++
      logLevel ++ "'")

/-- `LtpClaConfig::validate`: the error messages, none for a valid config. -/
def validate (cfg : LtpClaConfig) : List String :=
  validateLtp cfg.ltp ++ validateCla cfg.cla ++ validateIngress cfg.ingress ++
    validateEgress cfg.egress ++ validateLogLevel cfg.logLevel

theorem check_eq_nil {bad : Bool} {message : String} : check bad message = [] ↔ bad = false := by
  cases bad <;> simp [check]

/-- The defaults pass their own checks. -/
theorem validate_defaults : validate {} = [] := by decide +kernel

end LtpClaConfig

/-- What a valid configuration promises the engine. -/
structure LtpEngineConfig.Valid (ltp : LtpEngineConfig) : Prop where
  localEngineId : ltp.localEngineId ≠ 0
  remoteEngineId : ltp.remoteEngineId ≠ 0
  maxSegmentSize : ltp.maxSegmentSize ≠ 0
  maxRetransmissions : ltp.maxRetransmissions ≠ 0
  maxConcurrentSessions : ltp.maxConcurrentSessions ≠ 0

theorem LtpClaConfig.valid_of_validate {cfg : LtpClaConfig} (h : cfg.validate = []) :
    cfg.ltp.Valid := by
  simp only [validate, validateLtp, List.append_eq_nil_iff, check_eq_nil,
    decide_eq_false_iff_not] at h
  obtain ⟨⟨⟨⟨⟨⟨⟨⟨⟨hlocal, hremote⟩, hsize⟩, -⟩, hretx⟩, hsessions⟩, -⟩, -⟩, -⟩, -⟩ := h
  exact ⟨hlocal, hremote, hsize, hretx, hsessions⟩

end QpskB210.Ltp
