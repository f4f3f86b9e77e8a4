import Wawo.Lib.Memory
import Wawo.Lib.Refine
import Wawo.Wcp.Basic

/-!
# Copies and big-endian integers (`bytes_helper.hpp`)

Every `memcpy` of the source is a `load` or a `store` here: it fails where it would leave the memory
it is given. `write_impl` and `read_impl` are templates over an unsigned type, which is its size in
bytes.
-/

namespace Wawo

open Memory Lts

/-- What a `WAWO_ASSERT` or a `WAWO_CONDITION_CHECK` throws, or an access outside its memory. -/
inductive ByteFault
  | outOfBounds -- a copy that leaves the memory of one of its ends
  | ringRange -- `bytes_ringbuffer::reset`: the capacity is in `SizeRange`
  | ringTryRead -- `bytes_ringbuffer::try_read`: `read_count == size`
  | ringRead -- `bytes_ringbuffer::read<T>`: `count() >= sizeof(T)`
  | ringReadCount -- `bytes_ringbuffer::read<T>`: `rnbytes == sizeof(T)`
  | ringSkip -- `bytes_ringbuffer::skip`: `s <= count()`
  | ringWriteEmpty -- `bytes_ringbuffer::write`: `s != 0`
  | extendLeft -- `_extend_leftbuffer_capacity__`: throws over `PACK_MAX_LEFT_CAPACITY`
  | extendRightZero -- `_extend_rightbuffer_capacity__`: throws on `m_right_capacity == 0`
  | extendRight -- `_extend_rightbuffer_capacity__`: throws over `PACK_MAX_RIGHT_CAPACITY`
  | initLeft -- `_init_buffer`: throws over `PACK_MAX_LEFT_CAPACITY`
  | initRight -- `_init_buffer`: throws over `PACK_MAX_RIGHT_CAPACITY`
  | initCapacity -- `_init_buffer`: throws on `_capacity() == 0`
  | packetLen -- `packet::len`: `m_write_idx >= m_read_idx`
  | forwardWriteIndex -- `packet::forward_write_index`: throws on `_capacity() - m_write_idx < bytes`
  | resetLeft -- `packet::reset`: `0 < m_left_capacity < PACK_MAX_LEFT_CAPACITY`
  | writeLeftCount -- `packet::write_left<T>`: `wnbytes == sizeof(T)`
  | packetRead -- `packet::read`, `packet::peek<T>`: `length <= len()`, and `length > 0` for `read`
  | packetSkip -- `packet::skip`: `length <= len()`
  | hlenSize -- `hlen_packet::decode_packets`: `m_size > 0`
  | hlenRead -- `hlen_packet::decode_packets`: `nbytes == m_size`
  | hlenIdx -- `hlen_packet::decode_packets`: `idx < size`
  | divideByZero -- `52 / n` with `n == 0`
  | xxteaToBytes -- `xxtea_to_bytes_array`: `(dlen >> 2) <= alength`
  | xxteaToWords -- `xxtea_to_uint32_array`: `alength >= dlen >> 2`
  | xxteaKey -- `xxtea_encrypt`, `xxtea_decrypt` and `xxtea::set_key`: `klen > 0`
  | xxteaEc -- `xxtea::decrypt`: `ec == wawo::OK`
  | symmetricCipher -- `symmetric_encrypt`: `m_cipher != NULL`
  | symmetricCount -- `symmetric_encrypt::decode_packets`: `pcount < size`
  | dhNull -- `handshake_packet_arrive`: a packet that `encode` has not made is used
  | dhTransfer -- `handshake_packet_arrive`: `m_dhstate != DH_DATA_TRANSFER`
  | dhIdle -- `F_HANDSHAKE_HELLO`: `m_dhstate == DH_IDLE`
  | dhHandshake -- `F_HANDSHAKE_HELLO_RESP`, `F_HANDSHAKE_OK`: `m_dhstate == DH_HANDSHAKE`
  | dhLeft -- `F_HANDSHAKE_HELLO`, `F_HANDSHAKE_HELLO_RESP`: `in->len() == 0`
  | dhPrivKey -- `F_HANDSHAKE_HELLO_RESP`: `m_context.dhfactor.priv_key != 0`
  | dhCipher -- `F_HANDSHAKE_OK`: `get_cipher() != NULL`
  | dhSize -- `dh_symmetric_encrypt::decode_packets`: `size > 0`
  | socketSize -- `send`: `size > 0`, `size <= m_sb->capacity()`; `recv`: `size > 0`
  | socketRoom -- `socket::send`: `m_sb->left_capacity() >= to_buffer_c`
  | socketCount -- `socket::send`: `wcount == size`, `to_buffer_c == write_c`; `_pump`: `recv_BC == rb_WBC`
  | socketMode -- `m_sm`, `is_data_socket()`, `is_nonblocking()`
  | socketState -- `m_state`
  | socketWatch -- `begin_async_connect`, `begin_async_handshake`: nothing is watched or shut down
  | socketFlushed -- `handle_async_write`: `ec_o == wawo::OK` where nothing is left
  | socketAsyncWt -- `handle_async_write`: `m_async_wt != 0` where something is left
  | socketEc -- `close`: `ec != 0`
  | socketErrno -- `recv`: `ec != wawo::OK` where `::recv` fails
  | socketPumped -- `_receive_packets`: `pump_ec` where nothing has been read
  | socketQueue -- `handle_async_read`: the sizes of `m_rps_q` and `m_rps_q_standby`
  | muxOpen -- `stream::open`: `id == 0`, `state == SS_CLOSED`
  | muxId -- `_snd_fin`: `id != 0`
  | muxState -- `_snd_fin`: `state == SS_ESTABLISHED`
  | muxFlag -- `_snd_fin`, `_snd_syn`: the flag they set is not set yet
  | muxWrite -- `stream::write`: `nwrites == opack->len()`
  | muxResize -- `_flush`: `wb->count() == 0` where `wb` is replaced
  | muxPeek -- `_flush`: `nbytes > 0 && nbytes <= can_send_max`
  | muxWnd -- `_flush`: `wb_wnd >= nbytes`
  | muxRoom -- `mux_cargo::on_event`, `T_DATA`: `inpack->len() <= s->rb->left_capacity()`
  | muxCtx -- `mux_cargo::on_event`, `T_FIN`: `s->ctx != NULL`
  | wcpSize -- `WCPPACK_TO_UDPMESSAGE`: `WCP_HeaderLen <= size`
  | wcpMdu -- `WCPPACK_TO_UDPMESSAGE`: `data->len() <= WCP_MDU`
  | wcpRoom -- `WCPPACK_TO_UDPMESSAGE`: `size >= wlen + data->len()`
  | wcpHeader -- `WCP_RECEIVED_PACK_FROM_UDPMESSAGE`: `WCP_HeaderLen <= len`
  | wcpDlenMax -- `WCP_RECEIVED_PACK_FROM_UDPMESSAGE`: `header.dlen <= WCP_MDU`
  | wcpDlen -- `WCP_RECEIVED_PACK_FROM_UDPMESSAGE`: `header.dlen == (len - rlen)`
  | strLen -- `len_cstr(str, slen)`: `strlen(str) >= slen`, and `slen + 1` bytes can be asked for
  | strSub -- `substr`: `(begin + _len) <= len`
  | strCount -- `wawo::replace`: `replace_count` is an `int`
  | strResult -- `wawo::split`: `result.size() == 0`
  | rosType -- `message::ros`: `type != T_NONE`, `type < T_MAX`; `request`, `send`: `type == T_NONE`
  | rosData -- `message::ros::encode`: `data->len() > 0`
  | rosLength -- `_decode_message_from_packet`: throws on `inpack->len() < mlength`
  | rosEntry -- `_handle_resp_message`: the net ids are the same, and `rm.message->type == T_REQUEST`
  | rosAttached -- `_register_evts`: `m_so == NULL`
  | httpUnset -- `message::http::encode`: a `code` that is not set, or an `option` read behind `option_map`
  | httpStatus -- `message::http::encode`: `status.len > 0`
  | httpKey -- `header::remove`: `it_key != keys_order.end()`
  | waits -- no fault: a call has yet to return, with the answers and the times it has been given
  | loop -- a loop of the model ran out of rounds
deriving DecidableEq

/-- The cells a `memcpy` of `n` bytes from `m + off` reads. -/
def load (m : List Byte) (off n : Nat) : Except ByteFault (List Byte) :=
  if off + n ≤ m.length then .ok (slice m off n) else .error .outOfBounds

/-- `memcpy` of `bs` to `m + off` -/
def store (m : List Byte) (off : Nat) (bs : List Byte) : Except ByteFault (List Byte) :=
  if off + bs.length ≤ m.length then .ok (poke m off bs) else .error .outOfBounds

/-- An assertion or a check. -/
def require (p : Prop) [Decidable p] (f : ByteFault) : Except ByteFault Unit :=
  if p then .ok () else .error f

section

variable {m bs : List Byte} {off n : Nat} {p : Prop} [Decidable p] {f : ByteFault}

theorem load_eq (h : off + n ≤ m.length) : load m off n = .ok (slice m off n) := if_pos h

theorem store_eq (h : off + bs.length ≤ m.length) : store m off bs = .ok (poke m off bs) := if_pos h

theorem require_eq (h : p) : require p f = .ok () := if_pos h

theorem require_ne (h : ¬ p) : require p f = .error f := if_neg h

theorem load_eq_ok : load m off n = .ok bs ↔ off + n ≤ m.length ∧ bs = slice m off n := by
  unfold load
  split_ifs with h <;> simp [h, eq_comm]

theorem store_eq_ok {m' : List Byte} : store m off bs = .ok m' ↔ off + bs.length ≤ m.length ∧ m' = poke m off bs := by
  unfold store
  split_ifs with h <;> simp [h, eq_comm]

theorem require_eq_ok {u : Unit} : require p f = .ok u ↔ p := by
  unfold require
  split_ifs with h <;> simp [h]

/-- Where the fault is one that may happen. -/
theorem ensures_require {σ : Type} {Q : σ → Prop} {E : ByteFault → Prop} {k : Unit → Except ByteFault σ} (hf : ¬ p → E f) (hk : p → Ensures Q E (k ())) :
    Ensures Q E (require p f >>= k) := by
  unfold require
  split_ifs with h
  · exact hk h
  · exact hf h

end

/-! ### Loops that end

The model's loops have a bounded number of rounds; that they never run out is proved of each. -/

/-- The computation does not run out of the rounds of a loop. -/
structure NoLoop {α : Type} (x : Except ByteFault α) : Prop where
  ensures : Ensures (fun _ => True) (· ≠ .loop) x

namespace NoLoop

variable {α β : Type}

theorem ok (a : α) : NoLoop (.ok a) := ⟨trivial⟩

theorem error {f : ByteFault} (hf : f ≠ .loop) : NoLoop (.error f : Except ByteFault α) := ⟨hf⟩

theorem bind {x : Except ByteFault α} {k : α → Except ByteFault β} (hx : NoLoop x) (hk : ∀ a, NoLoop (k a)) : NoLoop (x >>= k) :=
  ⟨hx.ensures.bind fun a _ => (hk a).ensures⟩

theorem map {x : Except ByteFault α} (k : α → β) (hx : NoLoop x) : NoLoop (x.map k) := ⟨hx.ensures.map fun _ _ => trivial⟩

theorem ne {x : Except ByteFault α} (hx : NoLoop x) : x ≠ .error .loop := by
  rintro rfl
  exact hx.ensures rfl

theorem load (m : List Byte) (off n : Nat) : NoLoop (load m off n) := by
  unfold Wawo.load
  split_ifs
  · exact .ok _
  · exact .error nofun

theorem store (m : List Byte) (off : Nat) (bs : List Byte) : NoLoop (store m off bs) := by
  unfold Wawo.store
  split_ifs
  · exact .ok _
  · exact .error nofun

theorem require {p : Prop} [Decidable p] {f : ByteFault} (hf : f ≠ .loop) : NoLoop (require p f) := by
  unfold Wawo.require
  split_ifs
  · exact .ok _
  · exact .error hf

end NoLoop

/-! ### Big-endian integers -/

/-- `write_impl` from byte `i - 1` of the value down -/
def writeImplFrom (val : Nat) : Nat → List Byte
  | 0 => []
  | i + 1 => UInt8.ofNat ((val >>> (i * 8)) &&& 0xff) :: writeImplFrom val i

/-- `write_impl<T>` with `sizeof(T) = size` -/
def writeImpl (size val : Nat) : List Byte := writeImplFrom val size

/-- One round of the loop of `read_impl`: `ret <<= 8; ret |= byte`, in a `T`. -/
def readImplRound (size ret : Nat) (b : Byte) : Nat := (ret <<< 8) % 2 ^ (8 * size) ||| b.toNat

/-- `read_impl<T>` with `sizeof(T) = size`, from the bytes at `start` -/
def readImpl (size : Nat) (start : List Byte) : Nat := (start.take size).foldl (readImplRound size) 0

@[simp] theorem length_writeImpl (size val : Nat) : (writeImpl size val).length = size := by
  suffices h : ∀ i, (writeImplFrom val i).length = i from h size
  intro i
  induction i with
  | zero => rfl
  | succ i ih => rw [writeImplFrom, List.length_cons, ih]

theorem readImplRound_eq {size ret : Nat} {b : Byte} (h : ret * 256 < 2 ^ (8 * size)) :
    readImplRound size ret b = ret * 256 + b.toNat := by
  have hb : b.toNat < 2 ^ 8 := b.toNat_lt
  have hshift : ret <<< 8 = ret * 256 := Nat.shiftLeft_eq ret 8
  rw [readImplRound, Nat.mod_eq_of_lt (by omega), ← Nat.shiftLeft_add_eq_or_of_lt hb, hshift]

/-- Reading the low `i` bytes of a value after its higher ones gives the value. -/
theorem foldl_writeImplFrom {size val : Nat} (hv : val < 2 ^ (8 * size)) :
    ∀ i, i ≤ size → (writeImplFrom val i).foldl (readImplRound size) (val >>> (i * 8)) = val
  | 0, _ => by simp [writeImplFrom]
  | i + 1, hi => by
    have hround : readImplRound size (val >>> ((i + 1) * 8)) (UInt8.ofNat ((val >>> (i * 8)) &&& 0xff)) = val >>> (i * 8) := by
      have hand : (val >>> (i * 8)) &&& 0xff = val >>> (i * 8) % 2 ^ 8 := Nat.and_two_pow_sub_one_eq_mod _ 8
      have hshift : val >>> ((i + 1) * 8) = val >>> (i * 8) / 2 ^ 8 := by
        rw [Nat.add_mul, one_mul, Nat.shiftRight_add, Nat.shiftRight_eq_div_pow _ 8]
      have hle : val >>> (i * 8) ≤ val := Nat.shiftRight_le _ _
      rw [readImplRound_eq (by rw [hshift]; omega), hand, hshift, UInt8.toNat_ofNat']
      omega
    rw [writeImplFrom, List.foldl_cons, hround]
    exact foldl_writeImplFrom hv i (by omega)

/-- A value read back with the type it was written with. -/
theorem readImpl_writeImpl {size val : Nat} (hv : val < 2 ^ (8 * size)) : readImpl size (writeImpl size val) = val := by
  rw [readImpl, List.take_of_length_le (by simp)]
  have h := foldl_writeImplFrom hv size (Nat.le_refl _)
  rwa [Nat.shiftRight_eq_div_pow, Nat.mul_comm, Nat.div_eq_of_lt hv] at h

/-- Bytes read after `ret` are the low bytes of what they give, and `ret` is above them. -/
theorem writeImplFrom_foldl {size ret : Nat} {bs : List Byte} (h : (ret + 1) * 256 ^ bs.length ≤ 2 ^ (8 * size)) :
    bs.foldl (readImplRound size) ret / 256 ^ bs.length = ret ∧ writeImplFrom (bs.foldl (readImplRound size) ret) bs.length = bs := by
  induction bs generalizing ret with
  | nil => exact ⟨Nat.div_one ret, rfl⟩
  | cons b bs ih =>
    have hb : b.toNat < 256 := b.toNat_lt
    have hpow : 256 ^ (b :: bs).length = 256 * 256 ^ bs.length := by rw [List.length_cons, Nat.pow_succ, Nat.mul_comm]
    have hpos : 0 < 256 ^ bs.length := Nat.pow_pos (by decide)
    rw [hpow, ← Nat.mul_assoc] at h
    have hround : readImplRound size ret b = ret * 256 + b.toNat := by
      refine readImplRound_eq (Nat.lt_of_lt_of_le ?_ (Nat.le_trans (Nat.le_mul_of_pos_right _ hpos) h))
      omega
    have hnext : (ret * 256 + b.toNat + 1) * 256 ^ bs.length ≤ 2 ^ (8 * size) :=
      Nat.le_trans (Nat.mul_le_mul_right _ (by omega)) h
    obtain ⟨hhigh, hlow⟩ := ih hnext
    rw [List.foldl_cons, hround]
    generalize bs.foldl (readImplRound size) (ret * 256 + b.toNat) = val at hhigh hlow ⊢
    constructor
    · rw [hpow, Nat.mul_comm, ← Nat.div_div_eq_div_mul, hhigh]
      omega
    · have hshift : val >>> (bs.length * 8) = ret * 256 + b.toNat := by
        rw [Nat.shiftRight_eq_div_pow, Nat.mul_comm, Nat.pow_mul, ← hhigh]
      have hand : val >>> (bs.length * 8) &&& 0xff = b.toNat := by
        rw [show 0xff = 2 ^ 8 - 1 from rfl, Nat.and_two_pow_sub_one_eq_mod, hshift]
        omega
      rw [List.length_cons, writeImplFrom, hand, UInt8.ofNat_toNat, hlow]

/-- Bytes written back with the type they were read with. -/
theorem writeImpl_readImpl {size : Nat} {bs : List Byte} (h : bs.length = size) : writeImpl size (readImpl size bs) = bs := by
  subst h
  have hpow : (0 + 1) * 256 ^ bs.length ≤ 2 ^ (8 * bs.length) := by
    rw [Nat.pow_mul, Nat.zero_add, Nat.one_mul]
  rw [readImpl, List.take_length]
  exact (writeImplFrom_foldl hpow).2

theorem readImpl_lt {size : Nat} {bs : List Byte} (h : size ≤ bs.length) : readImpl size bs < 2 ^ (8 * size) := by
  have hlen : (bs.take size).length = size := List.length_take_of_le h
  have hpow : (0 + 1) * 256 ^ (bs.take size).length ≤ 2 ^ (8 * size) := by
    rw [hlen, Nat.pow_mul, Nat.zero_add, Nat.one_mul]
  have hhigh := (writeImplFrom_foldl hpow).1
  rw [hlen, Nat.div_eq_zero_iff] at hhigh
  rw [Nat.pow_mul]
  exact hhigh.resolve_left (Nat.ne_of_gt (Nat.pow_pos (by decide)))

theorem readImpl_take (size : Nat) (bs : List Byte) : readImpl size (bs.take size) = readImpl size bs := by
  rw [readImpl, readImpl, List.take_take, Nat.min_self]

theorem readImpl_append {size : Nat} {bs bs' : List Byte} (h : size ≤ bs.length) : readImpl size (bs ++ bs') = readImpl size bs := by
  rw [readImpl, readImpl, List.take_append_of_le_length h]

example : readImpl 4 (writeImpl 4 0x01020304) = 0x01020304 ∧ writeImpl 4 0x01020304 = [1, 2, 3, 4] := by decide

end Wawo
