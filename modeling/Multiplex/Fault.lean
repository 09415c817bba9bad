import Multiplex.Bytes

/-! Faults: a code that says what went wrong and a text for the reader. Codes outside the list are carried as
the number they came with. -/
namespace Multiplex

inductive FaultCode where
  | success
  | unknown
  | invalidArgument
  | missingObject
  | outOfRange
  | notInitialized
  | operationFailed
  | timeout
  | fileNotFound
  | fileReadError
  | configParseError
  | configMissingRequired
  | configInvalidValue
  | configInvalidLogLevel
  | networkWriteError
  | networkClosed
  | networkConnectionLost
  | networkIdleTimeout
  | tlsCertificateError
  | tlsInvalidNegotiatedProtocol
  | protocolViolation
  | protocolInvalidHeader
  | protocolStreamError
  | protocolGoaway
  | protocolInvalidUrl
  | streamReset
  | streamConnectionLost
  | streamInactive
  | streamMaxsizeExceeded
  | streamInvalidHostname
  | streamAlreadyClosed
  | streamInvalidState
  | unlisted (number : Int32)
  deriving DecidableEq, Inhabited

namespace FaultCode

def entry : FaultCode → Int32 × String × String
  | success => (0, "SUCCESS", "Success")
  | unknown => (1, "UNKNOWN_ERROR", "Unknown error")
  | invalidArgument => (2, "INVALID_ARGUMENT", "Invalid argument")
  | missingObject => (3, "NULL_POINTER", "Null pointer")
  | outOfRange => (5, "OUT_OF_RANGE", "Value out of range")
  | notInitialized => (6, "NOT_INITIALIZED", "Not initialized")
  | operationFailed => (8, "OPERATION_FAILED", "Operation failed")
  | timeout => (9, "TIMEOUT", "Operation timed out")
  | fileNotFound => (1000, "FILE_NOT_FOUND", "File not found")
  | fileReadError => (1002, "FILE_READ_ERROR", "File read error")
  | configParseError => (2000, "CONFIG_PARSE_ERROR", "Configuration parse error")
  | configMissingRequired => (2001, "CONFIG_MISSING_REQUIRED", "Missing required configuration")
  | configInvalidValue => (2002, "CONFIG_INVALID_VALUE", "Invalid configuration value")
  | configInvalidLogLevel => (2005, "CONFIG_INVALID_LOG_LEVEL", "Invalid log level")
  | networkWriteError => (3006, "NETWORK_WRITE_ERROR", "Transport write error")
  | networkClosed => (3007, "NETWORK_CLOSED", "Transport closed")
  | networkConnectionLost => (3008, "NETWORK_CONNECTION_LOST", "Connection lost")
  | networkIdleTimeout => (3009, "NETWORK_IDLE_TIMEOUT", "Connection idle timeout")
  | tlsCertificateError => (4001, "TLS_CERT_ERROR", "Peer certificate error")
  | tlsInvalidNegotiatedProtocol =>
    (4006, "TLS_INVALID_NEGOTIATED_PROTOCOL", "Negotiated protocol is not h2")
  | protocolViolation => (5000, "PROTOCOL_VIOLATION", "HTTP/2 protocol violation")
  | protocolInvalidHeader => (5001, "PROTOCOL_INVALID_HEADER", "Invalid header")
  | protocolStreamError => (5003, "PROTOCOL_STREAM_ERROR", "Stream error")
  | protocolGoaway => (5004, "PROTOCOL_GOAWAY", "Remote terminated connection")
  | protocolInvalidUrl => (5005, "PROTOCOL_INVALID_URL", "Invalid URL")
  | streamReset => (7000, "STREAM_RESET", "Stream reset")
  | streamConnectionLost => (7001, "STREAM_CONNECTION_LOST", "Connection lost while stream was active")
  | streamInactive => (7002, "STREAM_INACTIVE", "Connection closed before stream was started")
  | streamMaxsizeExceeded => (7003, "STREAM_MAXSIZE_EXCEEDED", "Response exceeded download maxsize")
  | streamInvalidHostname => (7004, "STREAM_INVALID_HOSTNAME", "Request does not match connection host")
  | streamAlreadyClosed => (7005, "STREAM_ALREADY_CLOSED", "Stream already closed")
  | streamInvalidState => (7006, "STREAM_INVALID_STATE", "Invalid stream state")
  | unlisted n => (n, "UNKNOWN_ERROR_CODE", "Unknown error code")

def number (c : FaultCode) : Int32 := c.entry.1

def name (c : FaultCode) : String := c.entry.2.1

def description (c : FaultCode) : String := c.entry.2.2

def listed : List FaultCode :=
  [success, unknown, invalidArgument, missingObject, outOfRange, notInitialized, operationFailed, timeout,
    fileNotFound, fileReadError, configParseError, configMissingRequired, configInvalidValue,
    configInvalidLogLevel, networkWriteError, networkClosed, networkConnectionLost, networkIdleTimeout,
    tlsCertificateError, tlsInvalidNegotiatedProtocol, protocolViolation, protocolInvalidHeader,
    protocolStreamError, protocolGoaway, protocolInvalidUrl, streamReset, streamConnectionLost,
    streamInactive, streamMaxsizeExceeded, streamInvalidHostname, streamAlreadyClosed, streamInvalidState]

def ofNumber (n : Int32) : FaultCode := (listed.find? (·.number = n)).getD (unlisted n)

@[simp] theorem number_ofNumber (n : Int32) : (ofNumber n).number = n := by
  unfold ofNumber
  cases h : listed.find? (·.number = n) with
  | none => rfl
  | some c => simpa using List.find?_some h

theorem ofNumber_number {c : FaultCode} (h : c ∈ listed) : ofNumber c.number = c := by
  revert c
  decide

def isSuccess (c : FaultCode) : Bool := c == success

end FaultCode

structure Fault where
  code : FaultCode := .success
  message : Bytes := []
  deriving DecidableEq, Inhabited

def Fault.plain (code : FaultCode) (message : String) : Fault := ⟨code, Bytes.ascii message⟩

end Multiplex
