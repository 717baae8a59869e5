/-! What a session writes to. Sending a text writes all of it and flushes; the cause of a failure
comes back as its text. -/

namespace SchemeCore.Session

class Sink (σ : Type) where
  send : σ → List UInt8 → Except String Unit × σ

end SchemeCore.Session
