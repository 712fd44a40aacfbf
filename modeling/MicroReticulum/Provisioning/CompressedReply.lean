import MicroReticulum.Provisioning.WellFormed
import MicroReticulum.Utilities.Compress

/-!
# Compressed responses

With the compressor of the source, a response that is compressed carries the payload of the response without
compression: `Compress::decode` makes it of the wrapped bytes, whatever the compressor had in memory.

How much shorter a response becomes is not said.
-/

namespace MicroReticulum.Provisioning

open MicroReticulum Library

variable {R F : Type}

/-- The platform with the compressor of the source. -/
def Env.compressing (env : Env F) : Env F := { env with compress := Compress.encoded }

/-- The same response, or the payload behind the envelope is wrapped around fewer bytes, of which the client makes the
payload again. -/
def ReadsBack (env : Env F) (response plain : List Token) : Prop :=
  response = plain ∨ ∃ (op : UInt8) (seq : UInt64) (payload : List Token) (z : Bytes),
    plain = .arr 3 :: num op.toNat :: num seq.toNat :: payload
      ∧ response = .arr 3 :: num op.toNat :: num seq.toNat :: (wrapper z).tokens
      ∧ z.length + wrapperOverhead < (env.encode payload).length
      ∧ ∀ maxOut, (env.encode payload).length ≤ maxOut →
        Yields (fun fuel => Compress.decode fuel z maxOut) (env.encode payload)

theorem packResponse_readsBack (env : Env F) (op : UInt8) (seq : UInt64) (compress : Bool) (payload : List Token) :
    ReadsBack env (packResponse env.compressing op seq compress payload)
      (packResponse env.compressing.uncompressed op seq compress payload) := by
  rw [packResponse_uncompressed]
  unfold packResponse
  dsimp only
  split
  case isFalse => exact .inl rfl
  case isTrue hsaves =>
    simp only [Bool.and_eq_true, Bool.not_eq_true', List.isEmpty_eq_false_iff, decide_eq_true_eq] at hsaves
    obtain ⟨⟨-, hsome⟩, hshorter⟩ := hsaves
    refine .inr ⟨op, seq, payload, Compress.encoded (env.encode payload), rfl, ?_, hshorter, fun maxOut hmax => ?_⟩
    · rw [wrapper_tokens]
      rfl
    · have hdecode := (Compress.encoded_reads_back (env.encode payload) hsome).2 maxOut
      rwa [if_pos hmax] at hdecode

/-- In every state of a run, the response to every request that is answered reads back as the response without
compression. -/
theorem compressed_responses_read_back (env : Env F) (p₀ p : Provisioner R F)
    (hedits : ∀ d ∈ p₀.decls, d.HookEdits (Policy.checked R))
    (hregistered : ∀ n ∈ p₀.namespaces, n.state = n.decl.registered p₀.runtime)
    (hrun : Relation.ReflTransGen (Step (Policy.checked R) (fun _ _ => True) env.compressing) p₀ p)
    (request bytes : Bytes) (q : Provisioner R F)
    (hanswer : handleMessage env.compressing request p = (.value bytes, q)) :
    ∃ response plain, bytes = env.encode response
      ∧ handleObjects env.compressing.uncompressed (env.decode request) p = (.value plain, q)
      ∧ ReadsBack env response plain := by
  have happ := wellRegistered_checked hedits
  have hstart : Sound (Policy.checked R) p₀.decls (fun _ => True) p₀ := by
    refine ⟨rfl, fun d hd => ?_, trivial, fun _ _ _ _ => trivial⟩
    obtain ⟨n, hn, rfl⟩ := List.mem_map.mp hd
    rw [Provisioner.stateOf_of_mem hn, hregistered n hn]
    exact registered_valid fun _ _ => trivial
  have hp : Sound (Policy.checked R) p₀.decls (fun _ => True) p := run_sound happ (fun _ _ _ _ => trivial) hrun hstart
  have hoffers : RequestOffers (Policy.checked R) env.compressing p₀.decls (env.decode request) := by
    intro _ _ _ x _
    cases x <;> trivial
  have hq := handleObjects_sound env.compressing happ hp hoffers
  unfold handleMessage at hanswer
  rw [Prog.bind_pure_run] at hanswer
  have hdecode : env.compressing.decode request = env.decode request := rfl
  rw [hdecode] at hanswer
  rcases hobjects : handleObjects env.compressing (env.decode request) p with ⟨response | _ | _ | _, t⟩ <;>
    rw [hobjects] at hanswer <;> cases hanswer
  have hreplies : Replies env.compressing _ _ p (handleObjects env.compressing (env.decode request)) _ :=
    handleObjects_replies (env.decode request) hp.draftsPresent hq.draftsPresent
  obtain ⟨op, compress, payload, hresponse, hplain, -⟩ := hreplies response _ hobjects
  exact ⟨response, _, rfl, hplain, hresponse ▸ packResponse_readsBack env op _ compress payload⟩

/-- A GetInfo request that asks for compression. -/
theorem compressed_responses_read_back_info :
    ∃ response plain,
      handleObjects deskEnv.compressing.uncompressed [.arr 3, .int 2, .int 7, .map 1, .int 100, .bool true] desk
          = (.value plain, desk)
        ∧ ReadsBack deskEnv response plain := by
  have hrequest : deskEnv.decode [0x93, 0x02, 0x07, 0x81, 0x64, 0xc3]
      = [.arr 3, .int 2, .int 7, .map 1, .int 100, .bool true] := by decide
  have hanswered : ∃ response, handleObjects deskEnv.compressing
      [.arr 3, .int 2, .int 7, .map 1, .int 100, .bool true] desk = (.value response, desk) := ⟨_, rfl⟩
  obtain ⟨response, hresponse⟩ := hanswered
  have hanswer : handleMessage deskEnv.compressing [0x93, 0x02, 0x07, 0x81, 0x64, 0xc3] desk
      = (.value (deskEnv.encode response), desk) := by
    show (handleObjects deskEnv.compressing (deskEnv.decode [0x93, 0x02, 0x07, 0x81, 0x64, 0xc3]) >>= _) desk = _
    rw [Prog.bind_run, hrequest, hresponse]
    rfl
  obtain ⟨response', plain, -, hplain, hreads⟩ := compressed_responses_read_back deskEnv desk desk desk_edits
    (fun n hn => by rw [List.mem_singleton.mp hn]) .refl [0x93, 0x02, 0x07, 0x81, 0x64, 0xc3] _ desk hanswer
  rw [hrequest] at hplain
  exact ⟨response', plain, hplain, hreads⟩

end MicroReticulum.Provisioning
