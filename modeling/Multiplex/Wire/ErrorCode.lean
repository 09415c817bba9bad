import Multiplex.Bytes

/-! The error codes of RST_STREAM and GOAWAY frames. A code outside the list keeps its number. -/
namespace Multiplex.Wire

inductive ErrorCode where
  | noError
  | protocolError
  | internalError
  | flowControlError
  | settingsTimeout
  | streamClosed
  | frameSizeError
  | refusedStream
  | cancel
  | compressionError
  | connectError
  | enhanceYourCalm
  | inadequateSecurity
  | http11Required
  | unlisted (number : UInt32)
  deriving DecidableEq, Inhabited

namespace ErrorCode

def entry : ErrorCode → UInt32 × String
  | noError => (0, "NO_ERROR")
  | protocolError => (1, "PROTOCOL_ERROR")
  | internalError => (2, "INTERNAL_ERROR")
  | flowControlError => (3, "FLOW_CONTROL_ERROR")
  | settingsTimeout => (4, "SETTINGS_TIMEOUT")
  | streamClosed => (5, "STREAM_CLOSED")
  | frameSizeError => (6, "FRAME_SIZE_ERROR")
  | refusedStream => (7, "REFUSED_STREAM")
  | cancel => (8, "CANCEL")
  | compressionError => (9, "COMPRESSION_ERROR")
  | connectError => (10, "CONNECT_ERROR")
  | enhanceYourCalm => (11, "ENHANCE_YOUR_CALM")
  | inadequateSecurity => (12, "INADEQUATE_SECURITY")
  | http11Required => (13, "HTTP_1_1_REQUIRED")
  | unlisted n => (n, "UNKNOWN_H2_ERROR")

def number (c : ErrorCode) : UInt32 := c.entry.1

def name (c : ErrorCode) : String := c.entry.2

def text (c : ErrorCode) : Bytes := Bytes.ascii c.name

def listed : List ErrorCode :=
  [noError, protocolError, internalError, flowControlError, settingsTimeout, streamClosed, frameSizeError,
    refusedStream, cancel, compressionError, connectError, enhanceYourCalm, inadequateSecurity, http11Required]

def ofNumber (n : UInt32) : ErrorCode := (listed.find? (·.number = n)).getD (unlisted n)

@[simp] theorem number_ofNumber (n : UInt32) : (ofNumber n).number = n := by
  unfold ofNumber
  cases h : listed.find? (·.number = n) with
  | none => rfl
  | some c => simpa using List.find?_some h

theorem ofNumber_number {c : ErrorCode} (h : c ∈ listed) : ofNumber c.number = c := by
  revert c
  decide

end ErrorCode

end Multiplex.Wire
