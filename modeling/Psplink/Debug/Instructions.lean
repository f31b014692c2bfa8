import Psplink.Exception.Context
import Psplink.Lib.Patterns

/-!
# Instruction tables

The tables of psplink/disasm.c. The conversions of a format:

* `%d`, `%t`, `%s`: a register; `%D`, `%T`, `%S`: one of the FPU; `%x?`, `%y?`, `%z?`, `%X?`: of the VFPU
* `%i`, `%I`, `%Z`, `%a`, `%n`, `%c`, `%C`, `%k`: numbers; `%0`, `%1`, `%p`, `%r`: numbered registers
* `%o`, `%V`, `%Y`: an offset from a register; `%O`, `%j`, `%J`: where the instruction goes
-/

namespace Psplink.Debug
open Psplink.Lib

structure Instruction where
  name : List Char
  opcode : Word
  mask : Word
  fmt : List Char
  deriving DecidableEq

def Instruction.pattern (ix : Instruction) : Pattern 32 := ⟨ix.mask, ix.opcode⟩

def macroInst : List Instruction :=
  [⟨['n','o','p'], 0x00000000, 0xFFFFFFFF, []⟩,
   ⟨['l','i'], 0x24000000, 0xFFE00000, ['%','t',',',' ','%','i']⟩,
   ⟨['l','i'], 0x34000000, 0xFFE00000, ['%','t',',',' ','%','I']⟩,
   ⟨['m','o','v','e'], 0x00000021, 0xFC1F07FF, ['%','d',',',' ','%','s']⟩,
   ⟨['m','o','v','e'], 0x00000025, 0xFC1F07FF, ['%','d',',',' ','%','s']⟩,
   ⟨['b'], 0x10000000, 0xFFFF0000, ['%','O']⟩,
   ⟨['b'], 0x04010000, 0xFFFF0000, ['%','O']⟩,
   ⟨['b','a','l'], 0x04110000, 0xFFFF0000, ['%','O']⟩,
   ⟨['b','n','e','z'], 0x14000000, 0xFC1F0000, ['%','s',',',' ','%','O']⟩,
   ⟨['b','n','e','z','l'], 0x54000000, 0xFC1F0000, ['%','s',',',' ','%','O']⟩,
   ⟨['n','e','g'], 0x00000022, 0xFFE007FF, ['%','d',',',' ','%','t']⟩,
   ⟨['n','e','g','u'], 0x00000023, 0xFFE007FF, ['%','d',',',' ','%','t']⟩,
   ⟨['n','o','t'], 0x00000027, 0xFC1F07FF, ['%','d',',',' ','%','s']⟩,
   ⟨['j','a','l','r'], 0x0000F809, 0xFC1FFFFF, ['%','J']⟩]

def inst : List Instruction :=
  [⟨['a','d','d'], 0x00000020, 0xFC0007FF, ['%','d',',',' ','%','s',',',' ','%','t']⟩,
   ⟨['a','d','d','i'], 0x20000000, 0xFC000000, ['%','t',',',' ','%','s',',',' ','%','i']⟩,
   ⟨['a','d','d','i','u'], 0x24000000, 0xFC000000, ['%','t',',',' ','%','s',',',' ','%','i']⟩,
   ⟨['a','d','d','u'], 0x00000021, 0xFC0007FF, ['%','d',',',' ','%','s',',',' ','%','t']⟩,
   ⟨['a','n','d'], 0x00000024, 0xFC0007FF, ['%','d',',',' ','%','s',',',' ','%','t']⟩,
   ⟨['a','n','d','i'], 0x30000000, 0xFC000000, ['%','t',',',' ','%','s',',',' ','%','I']⟩,
   ⟨['b','e','q'], 0x10000000, 0xFC000000, ['%','s',',',' ','%','t',',',' ','%','O']⟩,
   ⟨['b','e','q','l'], 0x50000000, 0xFC000000, ['%','s',',',' ','%','t',',',' ','%','O']⟩,
   ⟨['b','g','e','z'], 0x04010000, 0xFC1F0000, ['%','s',',',' ','%','O']⟩,
   ⟨['b','g','e','z','a','l'], 0x04110000, 0xFC1F0000, ['%','s',',',' ','%','0']⟩,
   ⟨['b','g','e','z','l'], 0x04030000, 0xFC1F0000, ['%','s',',',' ','%','O']⟩,
   ⟨['b','g','t','z'], 0x1C000000, 0xFC1F0000, ['%','s',',',' ','%','O']⟩,
   ⟨['b','g','t','z','l'], 0x5C000000, 0xFC1F0000, ['%','s',',',' ','%','O']⟩,
   ⟨['b','i','t','r','e','v'], 0x7C000520, 0xFFE007FF, ['%','d',',',' ','%','t']⟩,
   ⟨['b','l','e','z'], 0x18000000, 0xFC1F0000, ['%','s',',',' ','%','O']⟩,
   ⟨['b','l','e','z','l'], 0x58000000, 0xFC1F0000, ['%','s',',',' ','%','O']⟩,
   ⟨['b','l','t','z'], 0x04000000, 0xFC1F0000, ['%','s',',',' ','%','O']⟩,
   ⟨['b','l','t','z','l'], 0x04020000, 0xFC1F0000, ['%','s',',',' ','%','O']⟩,
   ⟨['b','l','t','z','a','l'], 0x04100000, 0xFC1F0000, ['%','s',',',' ','%','O']⟩,
   ⟨['b','l','t','z','a','l','l'], 0x04120000, 0xFC1F0000, ['%','s',',',' ','%','O']⟩,
   ⟨['b','n','e'], 0x14000000, 0xFC000000, ['%','s',',',' ','%','t',',',' ','%','O']⟩,
   ⟨['b','n','e','l'], 0x54000000, 0xFC000000, ['%','s',',',' ','%','t',',',' ','%','O']⟩,
   ⟨['b','r','e','a','k'], 0x0000000D, 0xFC00003F, ['%','c']⟩,
   ⟨['c','a','c','h','e'], 0xBC000000, 0xFC000000, ['%','k',',',' ','%','o']⟩,
   ⟨['c','f','c','0'], 0x40400000, 0xFFE007FF, ['%','t',',',' ','%','p']⟩,
   ⟨['c','l','o'], 0x00000017, 0xFC1F07FF, ['%','d',',',' ','%','s']⟩,
   ⟨['c','l','z'], 0x00000016, 0xFC1F07FF, ['%','d',',',' ','%','s']⟩,
   ⟨['c','t','c','0'], 0x40C00000, 0xFFE007FF, ['%','t',',',' ','%','p']⟩,
   ⟨['m','a','x'], 0x0000002C, 0xFC0007FF, ['%','d',',',' ','%','s',',',' ','%','t']⟩,
   ⟨['m','i','n'], 0x0000002D, 0xFC0007FF, ['%','d',',',' ','%','s',',',' ','%','t']⟩,
   ⟨['d','b','r','e','a','k'], 0x7000003F, 0xFFFFFFFF, []⟩,
   ⟨['d','i','v'], 0x0000001A, 0xFC00FFFF, ['%','s',',',' ','%','t']⟩,
   ⟨['d','i','v','u'], 0x0000001B, 0xFC00FFFF, ['%','s',',',' ','%','t']⟩,
   ⟨['d','r','e','t'], 0x7000003E, 0xFFFFFFFF, []⟩,
   ⟨['e','r','e','t'], 0x42000018, 0xFFFFFFFF, []⟩,
   ⟨['e','x','t'], 0x7C000000, 0xFC00003F, ['%','t',',',' ','%','s',',',' ','%','a',',',' ','%','n']⟩,
   ⟨['i','n','s'], 0x7C000004, 0xFC00003F, ['%','t',',',' ','%','s',',',' ','%','a',',',' ','%','n']⟩,
   ⟨['j'], 0x08000000, 0xFC000000, ['%','j']⟩,
   ⟨['j','r'], 0x00000008, 0xFC1FFFFF, ['%','J']⟩,
   ⟨['j','a','l','r'], 0x00000009, 0xFC1F07FF, ['%','J',',',' ','%','d']⟩,
   ⟨['j','a','l'], 0x0C000000, 0xFC000000, ['%','j']⟩,
   ⟨['l','b'], 0x80000000, 0xFC000000, ['%','t',',',' ','%','o']⟩,
   ⟨['l','b','u'], 0x90000000, 0xFC000000, ['%','t',',',' ','%','o']⟩,
   ⟨['l','h'], 0x84000000, 0xFC000000, ['%','t',',',' ','%','o']⟩,
   ⟨['l','h','u'], 0x94000000, 0xFC000000, ['%','t',',',' ','%','o']⟩,
   ⟨['l','l'], 0xC0000000, 0xFC000000, ['%','t',',',' ','%','O']⟩,
   ⟨['l','u','i'], 0x3C000000, 0xFFE00000, ['%','t',',',' ','%','I']⟩,
   ⟨['l','w'], 0x8C000000, 0xFC000000, ['%','t',',',' ','%','o']⟩,
   ⟨['l','w','l'], 0x88000000, 0xFC000000, ['%','t',',',' ','%','o']⟩,
   ⟨['l','w','r'], 0x98000000, 0xFC000000, ['%','t',',',' ','%','o']⟩,
   ⟨['m','a','d','d'], 0x0000001C, 0xFC00FFFF, ['%','s',',',' ','%','t']⟩,
   ⟨['m','a','d','d','u'], 0x0000001D, 0xFC00FFFF, ['%','s',',',' ','%','t']⟩,
   ⟨['m','f','c','0'], 0x40000000, 0xFFE007FF, ['%','t',',',' ','%','0']⟩,
   ⟨['m','f','d','r'], 0x7000003D, 0xFFE007FF, ['%','t',',',' ','%','r']⟩,
   ⟨['m','f','h','i'], 0x00000010, 0xFFFF07FF, ['%','d']⟩,
   ⟨['m','f','i','c'], 0x70000024, 0xFFE007FF, ['%','t',',',' ','%','p']⟩,
   ⟨['m','f','l','o'], 0x00000012, 0xFFFF07FF, ['%','d']⟩,
   ⟨['m','o','v','n'], 0x0000000B, 0xFC0007FF, ['%','d',',',' ','%','s',',',' ','%','t']⟩,
   ⟨['m','o','v','z'], 0x0000000A, 0xFC0007FF, ['%','d',',',' ','%','s',',',' ','%','t']⟩,
   ⟨['m','s','u','b'], 0x0000002E, 0xFC00FFFF, ['%','d',',',' ','%','t']⟩,
   ⟨['m','s','u','b','u'], 0x0000002F, 0xFC00FFFF, ['%','d',',',' ','%','t']⟩,
   ⟨['m','t','c','0'], 0x40800000, 0xFFE007FF, ['%','t',',',' ','%','0']⟩,
   ⟨['m','t','d','r'], 0x7080003D, 0xFFE007FF, ['%','t',',',' ','%','r']⟩,
   ⟨['m','t','i','c'], 0x70000026, 0xFFE007FF, ['%','t',',',' ','%','p']⟩,
   ⟨['h','a','l','t'], 0x70000000, 0xFFFFFFFF, []⟩,
   ⟨['m','t','h','i'], 0x00000011, 0xFC1FFFFF, ['%','s']⟩,
   ⟨['m','t','l','o'], 0x00000013, 0xFC1FFFFF, ['%','s']⟩,
   ⟨['m','u','l','t'], 0x00000018, 0xFC00FFFF, ['%','s',',',' ','%','t']⟩,
   ⟨['m','u','l','t','u'], 0x00000019, 0xFC0007FF, ['%','s',',',' ','%','t']⟩,
   ⟨['n','o','r'], 0x00000027, 0xFC0007FF, ['%','d',',',' ','%','s',',',' ','%','t']⟩,
   ⟨['o','r'], 0x00000025, 0xFC0007FF, ['%','d',',',' ','%','s',',',' ','%','t']⟩,
   ⟨['o','r','i'], 0x34000000, 0xFC000000, ['%','t',',',' ','%','s',',',' ','%','I']⟩,
   ⟨['r','o','t','r'], 0x00200002, 0xFFE0003F, ['%','d',',',' ','%','t',',',' ','%','a']⟩,
   ⟨['r','o','t','v'], 0x00000046, 0xFC0007FF, ['%','d',',',' ','%','t',',',' ','%','s']⟩,
   ⟨['s','e','b'], 0x7C000420, 0xFFE007FF, ['%','d',',',' ','%','t']⟩,
   ⟨['s','e','h'], 0x7C000620, 0xFFE007FF, ['%','d',',',' ','%','t']⟩,
   ⟨['s','b'], 0xA0000000, 0xFC000000, ['%','t',',',' ','%','o']⟩,
   ⟨['s','h'], 0xA4000000, 0xFC000000, ['%','t',',',' ','%','o']⟩,
   ⟨['s','l','l','v'], 0x00000004, 0xFC0007FF, ['%','d',',',' ','%','t',',',' ','%','s']⟩,
   ⟨['s','l','l'], 0x00000000, 0xFFE0003F, ['%','d',',',' ','%','t',',',' ','%','a']⟩,
   ⟨['s','l','t'], 0x0000002A, 0xFC0007FF, ['%','d',',',' ','%','s',',',' ','%','t']⟩,
   ⟨['s','l','t','i'], 0x28000000, 0xFC000000, ['%','t',',',' ','%','s',',',' ','%','i']⟩,
   ⟨['s','l','t','i','u'], 0x2C000000, 0xFC000000, ['%','t',',',' ','%','s',',',' ','%','i']⟩,
   ⟨['s','l','t','u'], 0x0000002B, 0xFC0007FF, ['%','d',',',' ','%','s',',',' ','%','t']⟩,
   ⟨['s','r','a'], 0x00000003, 0xFFE0003F, ['%','d',',',' ','%','t',',',' ','%','a']⟩,
   ⟨['s','r','a','v'], 0x00000007, 0xFC0007FF, ['%','d',',',' ','%','t',',',' ','%','s']⟩,
   ⟨['s','r','l','v'], 0x00000006, 0xFC0007FF, ['%','d',',',' ','%','t',',',' ','%','s']⟩,
   ⟨['s','r','l'], 0x00000002, 0xFFE0003F, ['%','d',',',' ','%','t',',',' ','%','a']⟩,
   ⟨['s','w'], 0xAC000000, 0xFC000000, ['%','t',',',' ','%','o']⟩,
   ⟨['s','w','l'], 0xA8000000, 0xFC000000, ['%','t',',',' ','%','o']⟩,
   ⟨['s','w','r'], 0xB8000000, 0xFC000000, ['%','t',',',' ','%','o']⟩,
   ⟨['s','u','b'], 0x00000022, 0xFC0007FF, ['%','d',',',' ','%','s',',',' ','%','t']⟩,
   ⟨['s','u','b','u'], 0x00000023, 0xFC0007FF, ['%','d',',',' ','%','s',',',' ','%','t']⟩,
   ⟨['s','y','n','c'], 0x0000000F, 0xFFFFFFFF, []⟩,
   ⟨['s','y','s','c','a','l','l'], 0x0000000C, 0xFC00003F, ['%','C']⟩,
   ⟨['x','o','r'], 0x00000026, 0xFC0007FF, ['%','d',',',' ','%','s',',',' ','%','t']⟩,
   ⟨['x','o','r','i'], 0x38000000, 0xFC000000, ['%','t',',',' ','%','s',',',' ','%','I']⟩,
   ⟨['w','s','b','h'], 0x7C0000A0, 0xFFE007FF, ['%','d',',',' ','%','t']⟩,
   ⟨['w','s','b','w'], 0x7C0000E0, 0xFFE007FF, ['%','d',',',' ','%','t']⟩,
   ⟨['a','b','s','.','s'], 0x46000005, 0xFFFF003F, ['%','D',',',' ','%','S']⟩,
   ⟨['a','d','d','.','s'], 0x46000000, 0xFFE0003F, ['%','D',',',' ','%','S',',',' ','%','T']⟩,
   ⟨['b','c','1','f'], 0x45000000, 0xFFFF0000, ['%','O']⟩,
   ⟨['b','c','1','f','l'], 0x45020000, 0xFFFF0000, ['%','O']⟩,
   ⟨['b','c','1','t'], 0x45010000, 0xFFFF0000, ['%','O']⟩,
   ⟨['b','c','1','t','l'], 0x45030000, 0xFFFF0000, ['%','O']⟩,
   ⟨['c','.','f','.','s'], 0x46000030, 0xFFE007FF, ['%','S',',',' ','%','T']⟩,
   ⟨['c','.','u','n','.','s'], 0x46000031, 0xFFE007FF, ['%','S',',',' ','%','T']⟩,
   ⟨['c','.','e','q','.','s'], 0x46000032, 0xFFE007FF, ['%','S',',',' ','%','T']⟩,
   ⟨['c','.','u','e','q','.','s'], 0x46000033, 0xFFE007FF, ['%','S',',',' ','%','T']⟩,
   ⟨['c','.','o','l','t','.','s'], 0x46000034, 0xFFE007FF, ['%','S',',',' ','%','T']⟩,
   ⟨['c','.','u','l','t','.','s'], 0x46000035, 0xFFE007FF, ['%','S',',',' ','%','T']⟩,
   ⟨['c','.','o','l','e','.','s'], 0x46000036, 0xFFE007FF, ['%','S',',',' ','%','T']⟩,
   ⟨['c','.','u','l','e','.','s'], 0x46000037, 0xFFE007FF, ['%','S',',',' ','%','T']⟩,
   ⟨['c','.','s','f','.','s'], 0x46000038, 0xFFE007FF, ['%','S',',',' ','%','T']⟩,
   ⟨['c','.','n','g','l','e','.','s'], 0x46000039, 0xFFE007FF, ['%','S',',',' ','%','T']⟩,
   ⟨['c','.','s','e','q','.','s'], 0x4600003A, 0xFFE007FF, ['%','S',',',' ','%','T']⟩,
   ⟨['c','.','n','g','l','.','s'], 0x4600003B, 0xFFE007FF, ['%','S',',',' ','%','T']⟩,
   ⟨['c','.','l','t','.','s'], 0x4600003C, 0xFFE007FF, ['%','S',',',' ','%','T']⟩,
   ⟨['c','.','n','g','e','.','s'], 0x4600003D, 0xFFE007FF, ['%','S',',',' ','%','T']⟩,
   ⟨['c','.','l','e','.','s'], 0x4600003E, 0xFFE007FF, ['%','S',',',' ','%','T']⟩,
   ⟨['c','.','n','g','t','.','s'], 0x4600003F, 0xFFE007FF, ['%','S',',',' ','%','T']⟩,
   ⟨['c','e','i','l','.','w','.','s'], 0x4600000E, 0xFFFF003F, ['%','D',',',' ','%','S']⟩,
   ⟨['c','f','c','1'], 0x44400000, 0xFFE007FF, ['%','t',',',' ','%','p']⟩,
   ⟨['c','t','c','1'], 0x44C00000, 0xFFE007FF, ['%','t',',',' ','%','p']⟩,
   ⟨['c','v','t','.','s','.','w'], 0x46800020, 0xFFFF003F, ['%','D',',',' ','%','S']⟩,
   ⟨['c','v','t','.','w','.','s'], 0x46000024, 0xFFFF003F, ['%','D',',',' ','%','S']⟩,
   ⟨['d','i','v','.','s'], 0x46000003, 0xFFE0003F, ['%','D',',',' ','%','S',',',' ','%','T']⟩,
   ⟨['f','l','o','o','r','.','w','.','s'], 0x4600000F, 0xFFFF003F, ['%','D',',',' ','%','S']⟩,
   ⟨['l','w','c','1'], 0xC4000000, 0xFC000000, ['%','T',',',' ','%','o']⟩,
   ⟨['m','f','c','1'], 0x44000000, 0xFFE007FF, ['%','t',',',' ','%','1']⟩,
   ⟨['m','o','v','.','s'], 0x46000006, 0xFFFF003F, ['%','D',',',' ','%','S']⟩,
   ⟨['m','t','c','1'], 0x44800000, 0xFFE007FF, ['%','t',',',' ','%','1']⟩,
   ⟨['m','u','l','.','s'], 0x46000002, 0xFFE0003F, ['%','D',',',' ','%','S',',',' ','%','T']⟩,
   ⟨['n','e','g','.','s'], 0x46000007, 0xFFFF003F, ['%','D',',',' ','%','S']⟩,
   ⟨['r','o','u','n','d','.','w','.','s'], 0x4600000C, 0xFFFF003F, ['%','D',',',' ','%','S']⟩,
   ⟨['s','q','r','t','.','s'], 0x46000004, 0xFFFF003F, ['%','D',',',' ','%','S']⟩,
   ⟨['s','u','b','.','s'], 0x46000001, 0xFFE0003F, ['%','D',',',' ','%','S',',',' ','%','T']⟩,
   ⟨['s','w','c','1'], 0xE4000000, 0xFC000000, ['%','T',',',' ','%','o']⟩,
   ⟨['t','r','u','n','c','.','w','.','s'], 0x4600000D, 0xFFFF003F, ['%','D',',',' ','%','S']⟩,
   ⟨['b','v','f'], 0x49000000, 0xFFE30000, ['%','Z',',',' ','%','O']⟩,
   ⟨['b','v','f','l'], 0x49020000, 0xFFE30000, ['%','Z',',',' ','%','O']⟩,
   ⟨['b','v','t'], 0x49010000, 0xFFE30000, ['%','Z',',',' ','%','O']⟩,
   ⟨['b','v','t','l'], 0x49030000, 0xFFE30000, ['%','Z',',',' ','%','O']⟩,
   ⟨['l','v','.','q'], 0xD8000000, 0xFC000002, ['%','X','q',',',' ','%','Y']⟩,
   ⟨['l','v','.','s'], 0xC8000000, 0xFC000000, ['%','X','s',',',' ','%','Y']⟩,
   ⟨['l','v','l','.','q'], 0xD4000000, 0xFC000002, ['%','X','q',',',' ','%','Y']⟩,
   ⟨['l','v','r','.','q'], 0xD4000002, 0xFC000002, ['%','X','q',',',' ','%','Y']⟩,
   ⟨['m','f','v'], 0x48600000, 0xFFE0FF80, []⟩,
   ⟨['m','f','v','c'], 0x48600000, 0xFFE0FF00, []⟩,
   ⟨['m','t','v'], 0x48E00000, 0xFFE0FF80, []⟩,
   ⟨['m','t','v','c'], 0x48E00000, 0xFFE0FF00, []⟩,
   ⟨['s','v','.','q'], 0xF8000000, 0xFC000002, ['%','X','q',',',' ','%','Y']⟩,
   ⟨['s','v','.','s'], 0xE8000000, 0xFC000000, ['%','X','s',',',' ','%','Y']⟩,
   ⟨['s','v','l','.','q'], 0xF4000000, 0xFC000002, ['%','X','q',',',' ','%','Y']⟩,
   ⟨['s','v','r','.','q'], 0xF4000002, 0xFC000002, ['%','X','q',',',' ','%','Y']⟩,
   ⟨['v','a','b','s','.','p'], 0xD0010080, 0xFFFF8080, ['%','z','p',',',' ','%','y','p']⟩,
   ⟨['v','a','b','s','.','q'], 0xD0018080, 0xFFFF8080, ['%','z','q',',',' ','%','y','q']⟩,
   ⟨['v','a','b','s','.','s'], 0xD0010000, 0xFFFF8080, ['%','z','s',',',' ','%','y','s']⟩,
   ⟨['v','a','b','s','.','t'], 0xD0018000, 0xFFFF8080, ['%','z','t',',',' ','%','y','t']⟩,
   ⟨['v','a','d','d','.','p'], 0x60000080, 0xFF808080, ['%','z','p',',',' ','%','y','p',',',' ','%','x','p']⟩,
   ⟨['v','a','d','d','.','q'], 0x60008080, 0xFF808080, ['%','z','q',',',' ','%','y','q',',',' ','%','x','q']⟩,
   ⟨['v','a','d','d','.','s'], 0x60000000, 0xFF808080, ['%','z','s',',',' ','%','y','z',',',' ','%','x','s']⟩,
   ⟨['v','a','d','d','.','t'], 0x60008000, 0xFF808080, ['%','z','t',',',' ','%','y','t',',',' ','%','x','t']⟩,
   ⟨['v','a','s','i','n','.','p'], 0xD0170080, 0xFFFF8080, ['%','z','p',',',' ','%','y','p']⟩,
   ⟨['v','a','s','i','n','.','q'], 0xD0178080, 0xFFFF8080, ['%','z','q',',',' ','%','y','q']⟩,
   ⟨['v','a','s','i','n','.','s'], 0xD0170000, 0xFFFF8080, ['%','z','s',',',' ','%','y','s']⟩,
   ⟨['v','a','s','i','n','.','t'], 0xD0178000, 0xFFFF8080, ['%','z','t',',',' ','%','y','t']⟩,
   ⟨['v','a','v','g','.','p'], 0xD0470080, 0xFFFF8080, ['%','z','p',',',' ','%','y','p']⟩,
   ⟨['v','a','v','g','.','q'], 0xD0478080, 0xFFFF8080, ['%','z','q',',',' ','%','y','q']⟩,
   ⟨['v','a','v','g','.','t'], 0xD0478000, 0xFFFF8080, ['%','z','t',',',' ','%','y','t']⟩,
   ⟨['v','b','f','y','1','.','p'], 0xD0420080, 0xFFFF8080, ['%','z','p',',',' ','%','y','p']⟩,
   ⟨['v','b','f','y','1','.','q'], 0xD0428080, 0xFFFF8080, ['%','z','q',',',' ','%','y','q']⟩,
   ⟨['v','b','f','y','2','.','q'], 0xD0438080, 0xFFFF8080, ['%','z','q',',',' ','%','y','q']⟩,
   ⟨['v','c','m','o','v','f','.','p'], 0xD2A80080, 0xFFF88080, []⟩,
   ⟨['v','c','m','o','v','f','.','q'], 0xD2A88080, 0xFFF88080, []⟩,
   ⟨['v','c','m','o','v','f','.','s'], 0xD2A80000, 0xFFF88080, []⟩,
   ⟨['v','c','m','o','v','f','.','t'], 0xD2A88000, 0xFFF88080, []⟩,
   ⟨['v','c','m','o','v','t','.','p'], 0xD2A00080, 0xFFF88080, []⟩,
   ⟨['v','c','m','o','v','t','.','q'], 0xD2A08080, 0xFFF88080, []⟩,
   ⟨['v','c','m','o','v','t','.','s'], 0xD2A00000, 0xFFF88080, []⟩,
   ⟨['v','c','m','o','v','t','.','t'], 0xD2A08000, 0xFFF88080, []⟩,
   ⟨['v','c','m','p','.','p'], 0x6C000080, 0xFF8080F0, []⟩,
   ⟨['v','c','m','p','.','p'], 0x6C000080, 0xFFFF80F0, []⟩,
   ⟨['v','c','m','p','.','p'], 0x6C000080, 0xFFFFFFF0, []⟩,
   ⟨['v','c','m','p','.','q'], 0x6C008080, 0xFF8080F0, []⟩,
   ⟨['v','c','m','p','.','q'], 0x6C008080, 0xFFFF80F0, []⟩,
   ⟨['v','c','m','p','.','q'], 0x6C008080, 0xFFFFFFF0, []⟩,
   ⟨['v','c','m','p','.','s'], 0x6C000000, 0xFF8080F0, []⟩,
   ⟨['v','c','m','p','.','s'], 0x6C000000, 0xFFFF80F0, []⟩,
   ⟨['v','c','m','p','.','s'], 0x6C000000, 0xFFFFFFF0, []⟩,
   ⟨['v','c','m','p','.','t'], 0x6C008000, 0xFF8080F0, []⟩,
   ⟨['v','c','m','p','.','t'], 0x6C008000, 0xFFFF80F0, []⟩,
   ⟨['v','c','m','p','.','t'], 0x6C008000, 0xFFFFFFF0, []⟩,
   ⟨['v','c','o','s','.','p'], 0xD0130080, 0xFFFF8080, ['%','z','p',',',' ','%','y','p']⟩,
   ⟨['v','c','o','s','.','q'], 0xD0138080, 0xFFFF8080, ['%','z','q',',',' ','%','y','q']⟩,
   ⟨['v','c','o','s','.','s'], 0xD0130000, 0xFFFF8080, ['%','z','s',',',' ','%','y','s']⟩,
   ⟨['v','c','o','s','.','t'], 0xD0138000, 0xFFFF8080, ['%','z','t',',',' ','%','y','t']⟩,
   ⟨['v','c','r','s','.','t'], 0x66808000, 0xFF808080, ['%','z','t',',',' ','%','y','t',',',' ','%','x','t']⟩,
   ⟨['v','c','r','s','p','.','t'], 0xF2808000, 0xFF808080, ['%','z','t',',',' ','%','y','t',',',' ','%','x','t']⟩,
   ⟨['v','c','s','t','.','p'], 0xD0600080, 0xFFE0FF80, ['%','z','p',',',' ','%','y','p',',',' ','%','x','p']⟩,
   ⟨['v','c','s','t','.','q'], 0xD0608080, 0xFFE0FF80, ['%','z','q',',',' ','%','y','q',',',' ','%','x','q']⟩,
   ⟨['v','c','s','t','.','s'], 0xD0600000, 0xFFE0FF80, ['%','z','s',',',' ','%','y','s',',',' ','%','x','s']⟩,
   ⟨['v','c','s','t','.','t'], 0xD0608000, 0xFFE0FF80, ['%','z','t',',',' ','%','y','t',',',' ','%','x','t']⟩,
   ⟨['v','d','e','t','.','p'], 0x67000080, 0xFF808080, ['%','z','s',',',' ','%','y','p',',',' ','%','x','p']⟩,
   ⟨['v','d','i','v','.','p'], 0x63800080, 0xFF808080, ['%','z','p',',',' ','%','y','p',',',' ','%','x','p']⟩,
   ⟨['v','d','i','v','.','q'], 0x63808080, 0xFF808080, ['%','z','q',',',' ','%','y','q',',',' ','%','x','q']⟩,
   ⟨['v','d','i','v','.','s'], 0x63800000, 0xFF808080, ['%','z','s',',',' ','%','y','z',',',' ','%','x','s']⟩,
   ⟨['v','d','i','v','.','t'], 0x63808000, 0xFF808080, ['%','z','t',',',' ','%','y','t',',',' ','%','x','t']⟩,
   ⟨['v','d','o','t','.','p'], 0x64800080, 0xFF808080, ['%','z','s',',',' ','%','y','p',',',' ','%','x','p']⟩,
   ⟨['v','d','o','t','.','q'], 0x64808080, 0xFF808080, ['%','z','s',',',' ','%','y','q',',',' ','%','x','q']⟩,
   ⟨['v','d','o','t','.','t'], 0x64808000, 0xFF808080, ['%','z','s',',',' ','%','y','t',',',' ','%','x','t']⟩,
   ⟨['v','e','x','p','2','.','p'], 0xD0140080, 0xFFFF8080, ['%','z','p',',',' ','%','y','p']⟩,
   ⟨['v','e','x','p','2','.','q'], 0xD0148080, 0xFFFF8080, ['%','z','q',',',' ','%','y','q']⟩,
   ⟨['v','e','x','p','2','.','s'], 0xD0140000, 0xFFFF8080, ['%','z','s',',',' ','%','y','s']⟩,
   ⟨['v','e','x','p','2','.','t'], 0xD0148000, 0xFFFF8080, ['%','z','t',',',' ','%','y','t']⟩,
   ⟨['v','f','2','h','.','p'], 0xD0320080, 0xFFFF8080, ['%','z','p',',',' ','%','y','p']⟩,
   ⟨['v','f','2','h','.','q'], 0xD0328080, 0xFFFF8080, ['%','z','q',',',' ','%','y','q']⟩,
   ⟨['v','f','2','i','d','.','p'], 0xD2600080, 0xFFE08080, []⟩,
   ⟨['v','f','2','i','d','.','q'], 0xD2608080, 0xFFE08080, []⟩,
   ⟨['v','f','2','i','d','.','s'], 0xD2600000, 0xFFE08080, []⟩,
   ⟨['v','f','2','i','d','.','t'], 0xD2608000, 0xFFE08080, []⟩,
   ⟨['v','f','2','i','n','.','p'], 0xD2000080, 0xFFE08080, []⟩,
   ⟨['v','f','2','i','n','.','q'], 0xD2008080, 0xFFE08080, []⟩,
   ⟨['v','f','2','i','n','.','s'], 0xD2000000, 0xFFE08080, []⟩,
   ⟨['v','f','2','i','n','.','t'], 0xD2008000, 0xFFE08080, []⟩,
   ⟨['v','f','2','i','u','.','p'], 0xD2400080, 0xFFE08080, []⟩,
   ⟨['v','f','2','i','u','.','q'], 0xD2408080, 0xFFE08080, []⟩,
   ⟨['v','f','2','i','u','.','s'], 0xD2400000, 0xFFE08080, []⟩,
   ⟨['v','f','2','i','u','.','t'], 0xD2408000, 0xFFE08080, []⟩,
   ⟨['v','f','2','i','z','.','p'], 0xD2200080, 0xFFE08080, []⟩,
   ⟨['v','f','2','i','z','.','q'], 0xD2208080, 0xFFE08080, []⟩,
   ⟨['v','f','2','i','z','.','s'], 0xD2200000, 0xFFE08080, []⟩,
   ⟨['v','f','2','i','z','.','t'], 0xD2208000, 0xFFE08080, []⟩,
   ⟨['v','f','a','d','.','p'], 0xD0460080, 0xFFFF8080, ['%','z','p',',',' ','%','y','p']⟩,
   ⟨['v','f','a','d','.','q'], 0xD0468080, 0xFFFF8080, ['%','z','q',',',' ','%','y','q']⟩,
   ⟨['v','f','a','d','.','t'], 0xD0468000, 0xFFFF8080, ['%','z','t',',',' ','%','y','t']⟩,
   ⟨['v','f','i','m','.','s'], 0xDF800000, 0xFF800000, []⟩,
   ⟨['v','f','l','u','s','h'], 0xFFFF040D, 0xFFFFFFFF, []⟩,
   ⟨['v','h','2','f','.','p'], 0xD0330080, 0xFFFF8080, ['%','z','p',',',' ','%','y','p']⟩,
   ⟨['v','h','2','f','.','s'], 0xD0330000, 0xFFFF8080, ['%','z','s',',',' ','%','y','s']⟩,
   ⟨['v','h','d','p','.','p'], 0x66000080, 0xFF808080, []⟩,
   ⟨['v','h','d','p','.','q'], 0x66008080, 0xFF808080, []⟩,
   ⟨['v','h','d','p','.','t'], 0x66008000, 0xFF808080, []⟩,
   ⟨['v','h','t','f','m','2','.','p'], 0xF0800000, 0xFF808080, []⟩,
   ⟨['v','h','t','f','m','3','.','t'], 0xF1000080, 0xFF808080, []⟩,
   ⟨['v','h','t','f','m','4','.','q'], 0xF1808000, 0xFF808080, []⟩,
   ⟨['v','i','2','c','.','q'], 0xD03D8080, 0xFFFF8080, []⟩,
   ⟨['v','i','2','f','.','p'], 0xD2800080, 0xFFE08080, []⟩,
   ⟨['v','i','2','f','.','q'], 0xD2808080, 0xFFE08080, []⟩,
   ⟨['v','i','2','f','.','s'], 0xD2800000, 0xFFE08080, []⟩,
   ⟨['v','i','2','f','.','t'], 0xD2808000, 0xFFE08080, []⟩,
   ⟨['v','i','2','s','.','p'], 0xD03F0080, 0xFFFF8080, []⟩,
   ⟨['v','i','2','s','.','q'], 0xD03F8080, 0xFFFF8080, []⟩,
   ⟨['v','i','2','u','c','.','q'], 0xD03C8080, 0xFFFF8080, ['%','z','q',',',' ','%','y','q']⟩,
   ⟨['v','i','2','u','s','.','p'], 0xD03E0080, 0xFFFF8080, ['%','z','q',',',' ','%','y','q']⟩,
   ⟨['v','i','2','u','s','.','q'], 0xD03E8080, 0xFFFF8080, ['%','z','q',',',' ','%','y','q']⟩,
   ⟨['v','i','d','t','.','p'], 0xD0030080, 0xFFFFFF80, ['%','z','p']⟩,
   ⟨['v','i','d','t','.','q'], 0xD0038080, 0xFFFFFF80, ['%','z','q']⟩,
   ⟨['v','i','i','m','.','s'], 0xDF000000, 0xFF800000, []⟩,
   ⟨['v','l','g','b','.','s'], 0xD0370000, 0xFFFF8080, ['%','z','s',',',' ','%','y','s']⟩,
   ⟨['v','l','o','g','2','.','p'], 0xD0150080, 0xFFFF8080, ['%','z','p',',',' ','%','y','p']⟩,
   ⟨['v','l','o','g','2','.','q'], 0xD0158080, 0xFFFF8080, ['%','z','q',',',' ','%','y','q']⟩,
   ⟨['v','l','o','g','2','.','s'], 0xD0150000, 0xFFFF8080, ['%','z','s',',',' ','%','y','s']⟩,
   ⟨['v','l','o','g','2','.','t'], 0xD0158000, 0xFFFF8080, ['%','z','t',',',' ','%','y','t']⟩,
   ⟨['v','m','a','x','.','p'], 0x6D800080, 0xFF808080, ['%','z','p',',',' ','%','y','p',',',' ','%','x','p']⟩,
   ⟨['v','m','a','x','.','q'], 0x6D808080, 0xFF808080, ['%','z','q',',',' ','%','y','q',',',' ','%','x','q']⟩,
   ⟨['v','m','a','x','.','s'], 0x6D800000, 0xFF808080, ['%','z','s',',',' ','%','y','s',',',' ','%','x','s']⟩,
   ⟨['v','m','a','x','.','t'], 0x6D808000, 0xFF808080, ['%','z','t',',',' ','%','y','t',',',' ','%','x','t']⟩,
   ⟨['v','m','f','v','c'], 0xD0500000, 0xFFFF0080, []⟩,
   ⟨['v','m','i','d','t','.','p'], 0xF3830080, 0xFFFFFF80, ['%','z','p']⟩,
   ⟨['v','m','i','d','t','.','q'], 0xF3838080, 0xFFFFFF80, ['%','z','q']⟩,
   ⟨['v','m','i','d','t','.','t'], 0xF3838000, 0xFFFFFF80, ['%','z','t']⟩,
   ⟨['v','m','i','n','.','p'], 0x6D000080, 0xFF808080, ['%','z','p',',',' ','%','y','p',',',' ','%','x','p']⟩,
   ⟨['v','m','i','n','.','q'], 0x6D008080, 0xFF808080, ['%','z','q',',',' ','%','y','q',',',' ','%','x','q']⟩,
   ⟨['v','m','i','n','.','s'], 0x6D000000, 0xFF808080, ['%','z','s',',',' ','%','y','s',',',' ','%','x','s']⟩,
   ⟨['v','m','i','n','.','t'], 0x6D008000, 0xFF808080, ['%','z','t',',',' ','%','y','t',',',' ','%','x','t']⟩,
   ⟨['v','m','m','o','v','.','p'], 0xF3800080, 0xFFFF8080, []⟩,
   ⟨['v','m','m','o','v','.','q'], 0xF3808080, 0xFFFF8080, ['%','z','o',',',' ','%','y','o']⟩,
   ⟨['v','m','m','o','v','.','t'], 0xF3808000, 0xFFFF8080, []⟩,
   ⟨['v','m','m','u','l','.','p'], 0xF0000080, 0xFF808080, []⟩,
   ⟨['v','m','m','u','l','.','q'], 0xF0008080, 0xFF808080, ['%','?','%','z','o',',',' ','%','y','o',',',' ','%','x','o']⟩,
   ⟨['v','m','m','u','l','.','t'], 0xF0008000, 0xFF808080, []⟩,
   ⟨['v','m','o','n','e','.','p'], 0xF3870080, 0xFFFFFF80, ['%','z','p']⟩,
   ⟨['v','m','o','n','e','.','q'], 0xF3878080, 0xFFFFFF80, ['%','z','q']⟩,
   ⟨['v','m','o','n','e','.','t'], 0xF3878000, 0xFFFFFF80, ['%','z','t']⟩,
   ⟨['v','m','o','v','.','p'], 0xD0000080, 0xFFFF8080, ['%','z','p',',',' ','%','y','p']⟩,
   ⟨['v','m','o','v','.','q'], 0xD0008080, 0xFFFF8080, ['%','z','q',',',' ','%','y','q']⟩,
   ⟨['v','m','o','v','.','s'], 0xD0000000, 0xFFFF8080, ['%','z','s',',',' ','%','y','s']⟩,
   ⟨['v','m','o','v','.','t'], 0xD0008000, 0xFFFF8080, ['%','z','t',',',' ','%','y','t']⟩,
   ⟨['v','m','s','c','l','.','p'], 0xF2000080, 0xFF808080, ['%','z','p',',',' ','%','y','p',',',' ','%','x','p']⟩,
   ⟨['v','m','s','c','l','.','q'], 0xF2008080, 0xFF808080, ['%','z','q',',',' ','%','y','q',',',' ','%','x','q']⟩,
   ⟨['v','m','s','c','l','.','t'], 0xF2008000, 0xFF808080, ['%','z','t',',',' ','%','y','t',',',' ','%','x','t']⟩,
   ⟨['v','m','t','v','c'], 0xD0510000, 0xFFFF8000, []⟩,
   ⟨['v','m','u','l','.','p'], 0x64000080, 0xFF808080, ['%','z','p',',',' ','%','y','p',',',' ','%','x','p']⟩,
   ⟨['v','m','u','l','.','q'], 0x64008080, 0xFF808080, ['%','z','q',',',' ','%','y','q',',',' ','%','x','q']⟩,
   ⟨['v','m','u','l','.','s'], 0x64000000, 0xFF808080, ['%','z','s',',',' ','%','y','s',',',' ','%','x','s']⟩,
   ⟨['v','m','u','l','.','t'], 0x64008000, 0xFF808080, ['%','z','t',',',' ','%','y','t',',',' ','%','x','t']⟩,
   ⟨['v','m','z','e','r','o','.','p'], 0xF3860080, 0xFFFFFF80, ['%','z','p']⟩,
   ⟨['v','m','z','e','r','o','.','q'], 0xF3868080, 0xFFFFFF80, ['%','z','q']⟩,
   ⟨['v','m','z','e','r','o','.','t'], 0xF3868000, 0xFFFFFF80, ['%','z','t']⟩,
   ⟨['v','n','e','g','.','p'], 0xD0020080, 0xFFFF8080, ['%','z','p',',',' ','%','y','p']⟩,
   ⟨['v','n','e','g','.','q'], 0xD0028080, 0xFFFF8080, ['%','z','q',',',' ','%','y','q']⟩,
   ⟨['v','n','e','g','.','s'], 0xD0020000, 0xFFFF8080, ['%','z','s',',',' ','%','y','s']⟩,
   ⟨['v','n','e','g','.','t'], 0xD0028000, 0xFFFF8080, ['%','z','t',',',' ','%','y','t']⟩,
   ⟨['v','n','o','p'], 0xFFFF0000, 0xFFFFFFFF, []⟩,
   ⟨['v','n','r','c','p','.','p'], 0xD0180080, 0xFFFF8080, ['%','z','p',',',' ','%','y','p']⟩,
   ⟨['v','n','r','c','p','.','q'], 0xD0188080, 0xFFFF8080, ['%','z','q',',',' ','%','y','q']⟩,
   ⟨['v','n','r','c','p','.','s'], 0xD0180000, 0xFFFF8080, ['%','z','s',',',' ','%','y','s']⟩,
   ⟨['v','n','r','c','p','.','t'], 0xD0188000, 0xFFFF8080, ['%','z','t',',',' ','%','y','t']⟩,
   ⟨['v','n','s','i','n','.','p'], 0xD01A0080, 0xFFFF8080, ['%','z','p',',',' ','%','y','p']⟩,
   ⟨['v','n','s','i','n','.','q'], 0xD01A8080, 0xFFFF8080, ['%','z','q',',',' ','%','y','q']⟩,
   ⟨['v','n','s','i','n','.','s'], 0xD01A0000, 0xFFFF8080, ['%','z','s',',',' ','%','y','s']⟩,
   ⟨['v','n','s','i','n','.','t'], 0xD01A8000, 0xFFFF8080, ['%','z','t',',',' ','%','y','t']⟩,
   ⟨['v','o','c','p','.','p'], 0xD0440080, 0xFFFF8080, ['%','z','p',',',' ','%','y','p']⟩,
   ⟨['v','o','c','p','.','q'], 0xD0448080, 0xFFFF8080, ['%','z','q',',',' ','%','y','q']⟩,
   ⟨['v','o','c','p','.','s'], 0xD0440000, 0xFFFF8080, ['%','z','s',',',' ','%','y','s']⟩,
   ⟨['v','o','c','p','.','t'], 0xD0448000, 0xFFFF8080, ['%','z','t',',',' ','%','y','t']⟩,
   ⟨['v','o','n','e','.','p'], 0xD0070080, 0xFFFFFF80, ['%','z','p']⟩,
   ⟨['v','o','n','e','.','q'], 0xD0078080, 0xFFFFFF80, ['%','z','q']⟩,
   ⟨['v','o','n','e','.','s'], 0xD0070000, 0xFFFFFF80, ['%','z','s']⟩,
   ⟨['v','o','n','e','.','t'], 0xD0078000, 0xFFFFFF80, ['%','z','t']⟩,
   ⟨['v','p','f','x','d'], 0xDE000000, 0xFF000000, []⟩,
   ⟨['v','p','f','x','s'], 0xDC000000, 0xFF000000, []⟩,
   ⟨['v','p','f','x','t'], 0xDD000000, 0xFF000000, []⟩,
   ⟨['v','q','m','u','l','.','q'], 0xF2808080, 0xFF808080, []⟩,
   ⟨['v','r','c','p','.','p'], 0xD0100080, 0xFFFF8080, ['%','z','p',',',' ','%','y','p']⟩,
   ⟨['v','r','c','p','.','q'], 0xD0108080, 0xFFFF8080, ['%','z','q',',',' ','%','y','q']⟩,
   ⟨['v','r','c','p','.','s'], 0xD0100000, 0xFFFF8080, ['%','z','s',',',' ','%','y','s']⟩,
   ⟨['v','r','c','p','.','t'], 0xD0108000, 0xFFFF8080, ['%','z','t',',',' ','%','y','t']⟩,
   ⟨['v','r','e','x','p','2','.','p'], 0xD01C0080, 0xFFFF8080, ['%','z','p',',',' ','%','y','p']⟩,
   ⟨['v','r','e','x','p','2','.','q'], 0xD01C8080, 0xFFFF8080, ['%','z','q',',',' ','%','y','q']⟩,
   ⟨['v','r','e','x','p','2','.','s'], 0xD01C0000, 0xFFFF8080, ['%','z','s',',',' ','%','y','s']⟩,
   ⟨['v','r','e','x','p','2','.','t'], 0xD01C8000, 0xFFFF8080, ['%','z','t',',',' ','%','y','t']⟩,
   ⟨['v','r','n','d','f','1','.','p'], 0xD0220080, 0xFFFFFF80, ['%','z','p']⟩,
   ⟨['v','r','n','d','f','1','.','q'], 0xD0228080, 0xFFFFFF80, ['%','z','q']⟩,
   ⟨['v','r','n','d','f','1','.','s'], 0xD0220000, 0xFFFFFF80, ['%','z','s']⟩,
   ⟨['v','r','n','d','f','1','.','t'], 0xD0228000, 0xFFFFFF80, ['%','z','t']⟩,
   ⟨['v','r','n','d','f','2','.','p'], 0xD0230080, 0xFFFFFF80, ['%','z','p']⟩,
   ⟨['v','r','n','d','f','2','.','q'], 0xD0238080, 0xFFFFFF80, ['%','z','q']⟩,
   ⟨['v','r','n','d','f','2','.','s'], 0xD0230000, 0xFFFFFF80, ['%','z','s']⟩,
   ⟨['v','r','n','d','f','2','.','t'], 0xD0238000, 0xFFFFFF80, ['%','z','t']⟩,
   ⟨['v','r','n','d','i','.','p'], 0xD0210080, 0xFFFFFF80, ['%','z','p']⟩,
   ⟨['v','r','n','d','i','.','q'], 0xD0218080, 0xFFFFFF80, ['%','z','q']⟩,
   ⟨['v','r','n','d','i','.','s'], 0xD0210000, 0xFFFFFF80, ['%','z','s']⟩,
   ⟨['v','r','n','d','i','.','t'], 0xD0218000, 0xFFFFFF80, ['%','z','t']⟩,
   ⟨['v','r','n','d','s','.','s'], 0xD0200000, 0xFFFF80FF, ['%','y','s']⟩,
   ⟨['v','r','o','t','.','p'], 0xF3A00080, 0xFFE08080, []⟩,
   ⟨['v','r','o','t','.','q'], 0xF3A08080, 0xFFE08080, []⟩,
   ⟨['v','r','o','t','.','t'], 0xF3A08000, 0xFFE08080, []⟩,
   ⟨['v','r','s','q','.','p'], 0xD0110080, 0xFFFF8080, ['%','z','p',',',' ','%','y','p']⟩,
   ⟨['v','r','s','q','.','q'], 0xD0118080, 0xFFFF8080, ['%','z','q',',',' ','%','y','q']⟩,
   ⟨['v','r','s','q','.','s'], 0xD0110000, 0xFFFF8080, ['%','z','s',',',' ','%','y','s']⟩,
   ⟨['v','r','s','q','.','t'], 0xD0118000, 0xFFFF8080, ['%','z','t',',',' ','%','y','t']⟩,
   ⟨['v','s','2','i','.','p'], 0xD03B0080, 0xFFFF8080, ['%','z','p',',',' ','%','y','p']⟩,
   ⟨['v','s','2','i','.','s'], 0xD03B0000, 0xFFFF8080, ['%','z','s',',',' ','%','y','s']⟩,
   ⟨['v','s','a','t','0','.','p'], 0xD0040080, 0xFFFF8080, ['%','z','p',',',' ','%','y','p']⟩,
   ⟨['v','s','a','t','0','.','q'], 0xD0048080, 0xFFFF8080, ['%','z','q',',',' ','%','y','q']⟩,
   ⟨['v','s','a','t','0','.','s'], 0xD0040000, 0xFFFF8080, ['%','z','s',',',' ','%','y','s']⟩,
   ⟨['v','s','a','t','0','.','t'], 0xD0048000, 0xFFFF8080, ['%','z','t',',',' ','%','y','t']⟩,
   ⟨['v','s','a','t','1','.','p'], 0xD0050080, 0xFFFF8080, ['%','z','p',',',' ','%','y','p']⟩,
   ⟨['v','s','a','t','1','.','q'], 0xD0058080, 0xFFFF8080, ['%','z','q',',',' ','%','y','q']⟩,
   ⟨['v','s','a','t','1','.','s'], 0xD0050000, 0xFFFF8080, ['%','z','s',',',' ','%','y','s']⟩,
   ⟨['v','s','a','t','1','.','t'], 0xD0058000, 0xFFFF8080, ['%','z','t',',',' ','%','y','t']⟩,
   ⟨['v','s','b','n','.','s'], 0x61000000, 0xFF808080, ['%','z','s',',',' ','%','y','s',',',' ','%','x','s']⟩,
   ⟨['v','s','b','z','.','s'], 0xD0360000, 0xFFFF8080, ['%','z','s',',',' ','%','y','s']⟩,
   ⟨['v','s','c','l','.','p'], 0x65000080, 0xFF808080, ['%','z','p',',',' ','%','y','p',',',' ','%','x','p']⟩,
   ⟨['v','s','c','l','.','q'], 0x65008080, 0xFF808080, ['%','z','q',',',' ','%','y','q',',',' ','%','x','q']⟩,
   ⟨['v','s','c','l','.','t'], 0x65008000, 0xFF808080, ['%','z','t',',',' ','%','y','t',',',' ','%','x','t']⟩,
   ⟨['v','s','c','m','p','.','p'], 0x6E800080, 0xFF808080, ['%','z','p',',',' ','%','y','p',',',' ','%','x','p']⟩,
   ⟨['v','s','c','m','p','.','q'], 0x6E808080, 0xFF808080, ['%','z','q',',',' ','%','y','q',',',' ','%','x','q']⟩,
   ⟨['v','s','c','m','p','.','s'], 0x6E800000, 0xFF808080, ['%','z','s',',',' ','%','y','s',',',' ','%','x','s']⟩,
   ⟨['v','s','c','m','p','.','t'], 0x6E808000, 0xFF808080, ['%','z','t',',',' ','%','y','t',',',' ','%','x','t']⟩,
   ⟨['v','s','g','e','.','p'], 0x6F000080, 0xFF808080, ['%','z','p',',',' ','%','y','p',',',' ','%','x','p']⟩,
   ⟨['v','s','g','e','.','q'], 0x6F008080, 0xFF808080, ['%','z','q',',',' ','%','y','q',',',' ','%','x','q']⟩,
   ⟨['v','s','g','e','.','s'], 0x6F000000, 0xFF808080, ['%','z','s',',',' ','%','y','s',',',' ','%','x','s']⟩,
   ⟨['v','s','g','e','.','t'], 0x6F008000, 0xFF808080, ['%','z','t',',',' ','%','y','t',',',' ','%','x','t']⟩,
   ⟨['v','s','g','n','.','p'], 0xD04A0080, 0xFFFF8080, ['%','z','p',',',' ','%','y','p']⟩,
   ⟨['v','s','g','n','.','q'], 0xD04A8080, 0xFFFF8080, ['%','z','q',',',' ','%','y','q']⟩,
   ⟨['v','s','g','n','.','s'], 0xD04A0000, 0xFFFF8080, ['%','z','s',',',' ','%','y','s']⟩,
   ⟨['v','s','g','n','.','t'], 0xD04A8000, 0xFFFF8080, ['%','z','t',',',' ','%','y','t']⟩,
   ⟨['v','s','i','n','.','p'], 0xD0120080, 0xFFFF8080, ['%','z','p',',',' ','%','y','p']⟩,
   ⟨['v','s','i','n','.','q'], 0xD0128080, 0xFFFF8080, ['%','z','q',',',' ','%','y','q']⟩,
   ⟨['v','s','i','n','.','s'], 0xD0120000, 0xFFFF8080, ['%','z','s',',',' ','%','y','s']⟩,
   ⟨['v','s','i','n','.','t'], 0xD0128000, 0xFFFF8080, ['%','z','t',',',' ','%','y','t']⟩,
   ⟨['v','s','l','t','.','p'], 0x6F800080, 0xFF808080, ['%','z','p',',',' ','%','y','p',',',' ','%','x','p']⟩,
   ⟨['v','s','l','t','.','q'], 0x6F808080, 0xFF808080, ['%','z','q',',',' ','%','y','q',',',' ','%','x','q']⟩,
   ⟨['v','s','l','t','.','s'], 0x6F800000, 0xFF808080, ['%','z','s',',',' ','%','y','s',',',' ','%','x','s']⟩,
   ⟨['v','s','l','t','.','t'], 0x6F808000, 0xFF808080, ['%','z','t',',',' ','%','y','t',',',' ','%','x','t']⟩,
   ⟨['v','s','o','c','p','.','p'], 0xD0450080, 0xFFFF8080, ['%','z','p',',',' ','%','y','p']⟩,
   ⟨['v','s','o','c','p','.','s'], 0xD0450000, 0xFFFF8080, ['%','z','s',',',' ','%','y','s']⟩,
   ⟨['v','s','q','r','t','.','p'], 0xD0160080, 0xFFFF8080, ['%','z','p',',',' ','%','y','p']⟩,
   ⟨['v','s','q','r','t','.','q'], 0xD0168080, 0xFFFF8080, ['%','z','q',',',' ','%','y','q']⟩,
   ⟨['v','s','q','r','t','.','s'], 0xD0160000, 0xFFFF8080, ['%','z','s',',',' ','%','y','s']⟩,
   ⟨['v','s','q','r','t','.','t'], 0xD0168000, 0xFFFF8080, ['%','z','t',',',' ','%','y','t']⟩,
   ⟨['v','s','r','t','1','.','q'], 0xD0408080, 0xFFFF8080, ['%','z','q',',',' ','%','y','q']⟩,
   ⟨['v','s','r','t','2','.','q'], 0xD0418080, 0xFFFF8080, ['%','z','q',',',' ','%','y','q']⟩,
   ⟨['v','s','r','t','3','.','q'], 0xD0488080, 0xFFFF8080, ['%','z','q',',',' ','%','y','q']⟩,
   ⟨['v','s','r','t','4','.','q'], 0xD0498080, 0xFFFF8080, ['%','z','q',',',' ','%','y','q']⟩,
   ⟨['v','s','u','b','.','p'], 0x60800080, 0xFF808080, ['%','z','p',',',' ','%','y','p',',',' ','%','x','p']⟩,
   ⟨['v','s','u','b','.','q'], 0x60808080, 0xFF808080, ['%','z','q',',',' ','%','y','q',',',' ','%','x','q']⟩,
   ⟨['v','s','u','b','.','s'], 0x60800000, 0xFF808080, ['%','z','s',',',' ','%','y','s',',',' ','%','x','s']⟩,
   ⟨['v','s','u','b','.','t'], 0x60808000, 0xFF808080, ['%','z','t',',',' ','%','y','t',',',' ','%','x','t']⟩,
   ⟨['v','s','y','n','c'], 0xFFFF0000, 0xFFFF0000, ['%','I']⟩,
   ⟨['v','s','y','n','c'], 0xFFFF0320, 0xFFFFFFFF, []⟩,
   ⟨['v','t','4','4','4','4','.','q'], 0xD0598080, 0xFFFF8080, ['%','z','q',',',' ','%','y','q']⟩,
   ⟨['v','t','5','5','5','1','.','q'], 0xD05A8080, 0xFFFF8080, ['%','z','q',',',' ','%','y','q']⟩,
   ⟨['v','t','5','6','5','0','.','q'], 0xD05B8080, 0xFFFF8080, ['%','z','q',',',' ','%','y','q']⟩,
   ⟨['v','t','f','m','2','.','p'], 0xF0800080, 0xFF808080, []⟩,
   ⟨['v','t','f','m','3','.','t'], 0xF1008000, 0xFF808080, []⟩,
   ⟨['v','t','f','m','4','.','q'], 0xF1808080, 0xFF808080, []⟩,
   ⟨['v','u','s','2','i','.','p'], 0xD03A0080, 0xFFFF8080, []⟩,
   ⟨['v','u','s','2','i','.','s'], 0xD03A0000, 0xFFFF8080, []⟩,
   ⟨['v','w','b','.','q'], 0xF8000002, 0xFC000002, []⟩,
   ⟨['v','w','b','n','.','s'], 0xD3000000, 0xFF008080, []⟩,
   ⟨['v','z','e','r','o','.','p'], 0xD0060080, 0xFFFFFF80, ['%','z','p']⟩,
   ⟨['v','z','e','r','o','.','q'], 0xD0068080, 0xFFFFFF80, ['%','z','q']⟩,
   ⟨['v','z','e','r','o','.','s'], 0xD0060000, 0xFFFFFF80, ['%','z','s']⟩,
   ⟨['v','z','e','r','o','.','t'], 0xD0068000, 0xFFFFFF80, ['%','z','t']⟩]

end Psplink.Debug
