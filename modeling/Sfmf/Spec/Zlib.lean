import Sfmf.Spec.Convert

/-!
# What zlib promises

zlib is not part of the sources. Its manual describes the two streams by what one
call may do, given the calls before it, and here this is a condition on the
parameter `Zlib`.

* `Zlib.Inflating`, `Zlib.Deflating`: the calls so far, as the input they have
  taken and the output they have given.
* `StreamFormat`: which byte strings are complete streams, and what they hold.
* `Zlib.InflateContract`, `Zlib.DeflateContract`: what a call does.
-/

namespace Sfmf

/-- A format of streams: the content of a complete stream, which is not the start of another one. -/
structure StreamFormat where
  decode : Bytes → Option Bytes
  prefixFree : ∀ {z z'}, (decode z).isSome → (decode z').isSome → z <+: z' → z = z'

namespace StreamFormat

variable (F : StreamFormat)

/-- A complete stream. -/
def Complete (z : Bytes) : Prop := (F.decode z).isSome

/-- A stream is complete within these bytes, or can be completed to one. -/
def Compatible (x : Bytes) : Prop := ∃ z, F.Complete z ∧ (x <+: z ∨ z <+: x)

/-- Further bytes follow on a complete stream. -/
def Trailing (x : Bytes) : Prop := ∃ z, F.Complete z ∧ z <+: x ∧ z ≠ x

variable {F}

theorem Complete.of_decode {z d : Bytes} (h : F.decode z = some d) : F.Complete z := by
  rw [Complete, h]; rfl

/-- A complete stream of the content `d`. -/
def StreamOf (F : StreamFormat) (d z : Bytes) : Prop := F.decode z = some d

theorem Complete.decode {z : Bytes} (h : F.Complete z) : ∃ d, F.decode z = some d := Option.isSome_iff_exists.1 h

/-- A complete stream has no bytes behind a stream. -/
theorem Complete.not_trailing {z : Bytes} (h : F.Complete z) : ¬ F.Trailing z :=
  fun ⟨_, hz', hle, hne⟩ => hne (F.prefixFree hz' h hle)

theorem Trailing.mono {x y : Bytes} (h : F.Trailing x) (hxy : x <+: y) : F.Trailing y := by
  obtain ⟨z, hz, hzx, hne⟩ := h
  refine ⟨z, hz, hzx.trans hxy, fun he => hne ?_⟩
  subst he
  exact hzx.eq_of_length_le hxy.length_le

end StreamFormat

namespace Zlib

variable (Z : Zlib)

/-- The states of a stream of `inflate` after calls that have reported no error, with the input that
the calls have taken and the output that they have given. -/
inductive Inflating : Z.Inflate → Bytes → Bytes → Prop
  | init : Inflating Z.inflateInit [] []
  | call {s : Z.Inflate} {t g : Bytes} (x : Bytes) (n : ℕ) (flush : ZFlush) (h : Inflating s t g) (hn : 0 < n)
      (hret : (Z.inflate s x n flush).ret = .ok ∨ (Z.inflate s x n flush).ret = .streamEnd) :
      Inflating (Z.inflate s x n flush).state (t ++ x.take (Z.inflate s x n flush).consumed)
        (g ++ (Z.inflate s x n flush).out)

/-- The contract of `inflate`, for calls with room for output. -/
structure InflateContract (F : StreamFormat) : Prop where
  /-- a call takes bytes of its input -/
  fits : ∀ {s t g} x {n} flush, Z.Inflating s t g → 0 < n → (Z.inflate s x n flush).consumed ≤ x.length
  /-- the output is bounded by the input -/
  bounded : ∃ bound : Bytes → ℕ, ∀ {s t g}, Z.Inflating s t g → g.length ≤ bound t
  /-- before the end of the stream, a call that reports no error takes input or gives output -/
  progress : ∀ {s t g} x {n} flush, Z.Inflating s t g → 0 < n → ¬ F.Complete t →
    (Z.inflate s x n flush).ret = .ok → 0 < (Z.inflate s x n flush).consumed ∨ (Z.inflate s x n flush).out ≠ []
  /-- the end is reported when the last byte of the stream has been taken, and then on -/
  ends : ∀ {s t g} x {n} flush, Z.Inflating s t g → 0 < n →
    ((Z.inflate s x n flush).ret = .streamEnd ↔ F.Complete (t ++ x.take (Z.inflate s x n flush).consumed))
  /-- after the end of the stream a call takes nothing and gives nothing -/
  after : ∀ {s t g} x {n} flush, Z.Inflating s t g → 0 < n → F.Complete t →
    (Z.inflate s x n flush).consumed = 0 ∧ (Z.inflate s x n flush).out = []
  /-- the end of the stream is not passed -/
  stops : ∀ {s t g z}, Z.Inflating s t g → F.Complete z → z <+: t → z = t
  /-- the last byte is taken only when all the output has been given -/
  whole : ∀ {s t g d}, Z.Inflating s t g → F.decode t = some d → g = d
  /-- there is no error in a stream -/
  valid : ∀ {s t g x n}, Z.Inflating s t g → 0 < n → x ≠ [] → F.Compatible (t ++ x) →
    (Z.inflate s x n .noFlush).ret = .ok ∨ (Z.inflate s x n .noFlush).ret = .streamEnd

/-- The states of a stream of `deflate` after calls that have reported no error: whether it is being
finished, the input that the calls have taken and the output that they have given. -/
inductive Deflating : Bool → Z.Deflate → Bytes → Bytes → Prop
  | init : Deflating false Z.deflateInit [] []
  | feed {s : Z.Deflate} {t g : Bytes} (x : Bytes) (n : ℕ) (h : Deflating false s t g) (hx : x ≠ []) (hn : 0 < n)
      (hret : (Z.deflate s x n .noFlush).ret = .ok) :
      Deflating false (Z.deflate s x n .noFlush).state (t ++ x.take (Z.deflate s x n .noFlush).consumed)
        (g ++ (Z.deflate s x n .noFlush).out)
  | finish {fin : Bool} {s : Z.Deflate} {t g : Bytes} (n : ℕ) (h : Deflating fin s t g) (hn : 0 < n)
      (hret : (Z.deflate s [] n .finish).ret = .ok) :
      Deflating true (Z.deflate s [] n .finish).state t (g ++ (Z.deflate s [] n .finish).out)

/-- The contract of `deflate`, for calls with room for output: `stream t z` says that `z` is a complete
stream of the input `t`. -/
structure DeflateContract (stream : Bytes → Bytes → Prop) : Prop where
  /-- the output is bounded by the input -/
  bounded : ∃ bound : Bytes → ℕ, ∀ {fin s t g}, Z.Deflating fin s t g → g.length ≤ bound t
  /-- a call with input takes some of it or gives output -/
  feed : ∀ {s t g x n}, Z.Deflating false s t g → 0 < n → x ≠ [] → (Z.deflate s x n .noFlush).ret = .ok ∧
    (0 < (Z.deflate s x n .noFlush).consumed ∨ (Z.deflate s x n .noFlush).out ≠ [])
  /-- finishing gives output until the stream of the whole input is complete -/
  finish : ∀ {fin s t g n}, Z.Deflating fin s t g → 0 < n →
    (Z.deflate s [] n .finish).ret = .ok ∧ (Z.deflate s [] n .finish).out ≠ [] ∨
    (Z.deflate s [] n .finish).ret = .streamEnd ∧ stream t (g ++ (Z.deflate s [] n .finish).out)

theorem DeflateContract.mono {Z : Zlib} {stream stream' : Bytes → Bytes → Prop} (h : Z.DeflateContract stream)
    (hstream : ∀ t z, stream t z → stream' t z) : Z.DeflateContract stream' :=
  ⟨h.bounded, h.feed, fun hs hn => (h.finish hs hn).imp_right fun hend => ⟨hend.1, hstream _ _ hend.2⟩⟩

end Zlib

end Sfmf
