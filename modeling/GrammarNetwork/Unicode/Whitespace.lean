import GrammarNetwork.Unicode.Table

/-! The property White_Space of Unicode 17. -/

namespace GrammarNetwork.Unicode

def whitespaceRuns : Array Run := #[
  ⟨0x9, 0xD, 1⟩, ⟨0x20, 0x20, 1⟩, ⟨0x85, 0x85, 1⟩, ⟨0xA0, 0xA0, 1⟩, ⟨0x1680, 0x1680, 1⟩,
  ⟨0x2000, 0x200A, 1⟩, ⟨0x2028, 0x2029, 1⟩, ⟨0x202F, 0x202F, 1⟩, ⟨0x205F, 0x205F, 1⟩,
  ⟨0x3000, 0x3000, 1⟩]

/-- Blanks, line ends and the other white space. -/
def isWhitespace (character : Char) : Bool :=
  inTable whitespaceRuns character.toNat

end GrammarNetwork.Unicode
