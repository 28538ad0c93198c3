/-!
# Machine words

The machine computes on 16-bit words; arithmetic wraps. A word with bit 15 clear, taken as an
instruction, loads itself into the address register. Every other word computes, and
`encodeCompute` builds it from its three fields.
-/

namespace HackStack.Machine

abbrev Word := BitVec 16

/-- The word of a computing instruction: seven bits of computation, three of destination and three
of jump condition. -/
def encodeCompute (comp dest jump : Word) : Word :=
  0xE000#16 ||| (comp &&& 0x7F#16) <<< 6 ||| (dest &&& 0x7#16) <<< 3 ||| (jump &&& 0x7#16)

end HackStack.Machine
