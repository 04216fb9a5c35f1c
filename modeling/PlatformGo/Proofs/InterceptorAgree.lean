import PlatformGo.Proofs.IdemReplay
import PlatformGo.Proofs.InterceptorReturn

/-!
# Live and replayed responses

While the completed record of a key is there, a call for the key is answered
from it, and it is the record that decides what the call returns. The call
that stored the record returned what it stored. That leaves one more way to
return a response: a call that lost its record to expiry, and did not hear of
it from its lease, goes on to `Complete`. There it is refused, the refusal is
logged, and the response is returned nevertheless, next to the other one the
record has by then.

So the condition is on the calls that come to `Complete`: none of them finds a
completed record.
-/

namespace PlatformGo.Idempotency

variable {Req Resp : Type} {srv : Server Req Resp}

/-- Protobuf and JSON read a response back from what they wrote for it. -/
def Server.RoundTrips (srv : Server Req Resp) (method : String)
    (response : Resp) : Prop :=
  ∀ payload, srv.codec.marshalResponse response = some (.ok payload) →
    (∀ b, srv.manager.json.marshal payload = .ok b →
      srv.codec.unmarshalCached b = .ok payload) ∧
    ∀ output, srv.grpcMethodOutput method = .ok output →
      output payload = .ok response

/-- The call is answered from the record, or has its handler's response: after
it was stored or refused, or past the manager. -/
inductive Answered (srv : Server Req Resp) (s t : Sys Req Resp)
    (ev : Event Req Resp) (i : Nat) (c : CallState Req Resp)
    (response : Resp) : Prop
  | replayed {fingerprint owner : String} {fault : Fault} {d : Decision}
      (hd : (srv.manager.begin c.req.key fingerprint owner fault
        s.store.redis).2 = .decision d)
      (hstate : d.state = .completed)
      (hreplay : srv.replayGRPCResponse c.req.method d.response =
        .ok response)
      (hredis : t.store.redis = (srv.manager.begin c.req.key fingerprint owner
        fault s.store.redis).1)
  | stored {payload : Bytes} {fault : Fault} (hev : ev = .persist i fault)
      (hout : c.outcome = some (.ok response))
      (hpayload : srv.codec.marshalResponse response = some (.ok payload))
      (hstep : step srv.manager s.store
        (.call (.complete c.req.key c.owner payload) fault) = some t.store)
  | past (hphase : c.phase = .through)

variable {req : Request Req}

end PlatformGo.Idempotency
