set_option autoImplicit false

namespace Stencil.Text

/-- Runs of characters with a one-character upper-case form: first, count, stride and distance in
base 36. -/
def upperRunData : String :=
  "Cpq1-wF111UnG8n1-wGw71-wH311DdH5o2-1Ih11-GgIj32-1Iq82-1J7n2-1Ki32-1Kn11-IcKo11FfKr22-1Kw11-1L011-1L611-1L911CpLd11
    -1Le11EjLf11BTM9Li11DmLl32-1Ls11-1Lx11-1M011-1M422-1M911-1Md11-1Mf11BkMl11-1Mm11-2Mo11-1Mp11-2Mr11-1Ms11-2Mu82-1N911
    -C7Nb92-1Nu11-1Nv11-2Nx11-1O1k2-1P792-1Pw11-1Pz21LOfQ211-1Q752-1Qg11LNjQh11LNgQi11LNiQj11-FuQk11-FqQm21-FpQp11-FmQr1
    1-FnQs11BTFjQw11-FpQx11BTFfQz11-FrR011BTG7R111BTEgR211BTF8R411-FtR511-FvR611BTF8R711LMfR811BTF5Rb11-FvRd11LMlRe11-Fx
    Rh11-FyRp11LLzRs11-G2Ru11BTF7Rv11-G2Rz11BTEiS011-G2S111-BxS221-G1S411-BzSa11-G3Sl11BTDxSm11BTDuX911CcYh22-1Yn11-1Yr3
    1DmBA411-B2BA531-B1BA9h1-wBAq11-vBAr91-wBB011-BsBB121-BrBB411-BqBB511-BlBB911-BbBBa11-BiBBb11-8BBdc2-1BC011-CeBC111
    -C8BC2117BC311-D8BC511-CoBC811-1BCb11-1BDsw1-wBEog1-C8BF5h2-1BGbr2-1BHu72-1BI711-fBI9Bc2-1BM9B21-BcEPkB71DFkEQt31DFk
    FM061-8HUo11-GRqHUp11-GRpHUq11-GRgHUr21-GReHUt11-GRfHUu11-GR8HUv11-GPpHUw11BLRmHUy11-1IBl11BLTgIBp11EByIC611BLUwIFd
    C32-1IJn11-BnIJtBc2-1IMg818IMw618INc818INs818IO8618IOp428IP4818IPk21C2IPm41CeIPq21CsIPs21DkIPu21D4IPw21DiIRc218IRq11
    -HS5IS8218ISo218ISt117JCu11-sJDsg1-gJEc11-1KBsq1-qMC8Bc1-BcMDl11-1MDp11-LNvMDq11-LNsMDs32-1ME311-1ME611-1MEhBe2-1MHg
    22-1MHn11-1MI0B21-HTsMJ311-HTsMJ911-HTsBTM9n2-1BTO1e2-1BTSj72-1BTSzv2-1BTUy22-1BTV352-1BTVg11-1BTVl22-1BTVo11BcBTVra
    2-1BTWl82-1BTX422-1BTX982-1BTYe11-1BUWb11-ZsBUX4C81-BPNkCRV5q1-wCTE0B41-B4CTIwB01-B4CTO7j2-B3CTO852-B3CTOk72-B3CTP03
    2-B3CTP811-B3CVN4Bf1-BsCVS0m1-wCYUgw1-wDWFcw1-wDWHvp1-rFDUay1-y"

def lowerRunData : String :=
  "Btq1wFcn1wG071wH4o21Ii321Ip821J6n21Kg11-DdKh321Kp11FuKq221Ku11FqKv111Kx21FpKz111L211C7L311FmL411FnL5111L711FpL811Fr
    La11FvLb11FtLc111Lg11FvLh11FxLj11FyLk321Lq11G2Lr111Lt11G2Lw111Ly11G2Lz111M121G1M3221M711G3M8111Mc111Mk112Ml111Mn112
    Mo111Mq112Mr921Na921Nt112Nu221Ny11-CpNz11-BkO0k21P411-DmP6921Pu11LNvPv111Px11-EjPy11LNsQ1111Q311-FfQ411BxQ511BzQ6521
    Yg221Ym111Yv11D8Z211B2Z431B1Z811BsZa21BrZdh1wZv91wBB3118BBcc21BC411-BoBC7111BC911-7BCa111BCd31-DmBCgg1C8BCww1wBF4h21
    BGar21BHs11fBHt721BI8Bc21BKxB21BcEO8B21HTsEPb11HTsEPh11HTsFJkC81BPNkFLs618HUx111HV4B71-DFkHWd31-DFkIFcC321IJq11-IDj
    IJsBc21IMo81-8IN461-8INk81-8IO081-8IOg61-8IOx42-8IPc81-8IQ881-8IQo81-8IR481-8IRk21-8IRm21-C2IRo11-9IS041-CeIS411-9
    ISg21-8ISi21-CsISw21-8ISy21-D4IT011-7ITc21-DkITe21-DiITg11-9JBq11-IAtJBu11-IYvJBv11-IViJC211sJDcg1gJEb111KB2q1qMAwBc
    1BcMDk111MDm11-LMfMDn11-EByMDo11-LLzMDr321MDx11-LNgMDy11-LMlMDz11-LNjME011-LNiME2111ME5111MEe21-LOfMEgBe21MHf221MHm1
    11BTM8n21BTO0e21BTSi721BTSyv21BTUx221BTV111-BLTgBTV2521BTVf111BTVh11-BTEgBTVk221BTVqa21BTWa11-BTF8BTWb11-BTFjBTWc11
    -BTFfBTWd11-BTF5BTWe11-BTF8BTWg11-BTDuBTWh11-BTEiBTWi11-BTDxBTWj11ZsBTWk821BTX011-BcBTX111-BTF7BTX211-BLUwBTX3221
    BTX711-BTG7BTX8821BTXo11-BTM9BTYd111CRU9q1wCTCwB41B4CTHsB01B4CTN4j2B3CTN552B3CTNh72B3CTNx32B3CTO511B3CVLcBf1BsCVR4m1
    wCYTkw1wDWEgw1wDWH4p1rFDTcy1y"

def upperLongData : List (Nat × List Nat) := [
  (0xdf, [0x53, 0x53]), (0x149, [0x2bc, 0x4e]), (0x1f0, [0x4a, 0x30c]),
  (0x390, [0x399, 0x308, 0x301]), (0x3b0, [0x3a5, 0x308, 0x301]), (0x587, [0x535, 0x552]),
  (0x1e96, [0x48, 0x331]), (0x1e97, [0x54, 0x308]), (0x1e98, [0x57, 0x30a]),
  (0x1e99, [0x59, 0x30a]), (0x1e9a, [0x41, 0x2be]), (0x1f50, [0x3a5, 0x313]),
  (0x1f52, [0x3a5, 0x313, 0x300]), (0x1f54, [0x3a5, 0x313, 0x301]),
  (0x1f56, [0x3a5, 0x313, 0x342]), (0x1f80, [0x1f08, 0x399]), (0x1f81, [0x1f09, 0x399]),
  (0x1f82, [0x1f0a, 0x399]), (0x1f83, [0x1f0b, 0x399]), (0x1f84, [0x1f0c, 0x399]),
  (0x1f85, [0x1f0d, 0x399]), (0x1f86, [0x1f0e, 0x399]), (0x1f87, [0x1f0f, 0x399]),
  (0x1f88, [0x1f08, 0x399]), (0x1f89, [0x1f09, 0x399]), (0x1f8a, [0x1f0a, 0x399]),
  (0x1f8b, [0x1f0b, 0x399]), (0x1f8c, [0x1f0c, 0x399]), (0x1f8d, [0x1f0d, 0x399]),
  (0x1f8e, [0x1f0e, 0x399]), (0x1f8f, [0x1f0f, 0x399]), (0x1f90, [0x1f28, 0x399]),
  (0x1f91, [0x1f29, 0x399]), (0x1f92, [0x1f2a, 0x399]), (0x1f93, [0x1f2b, 0x399]),
  (0x1f94, [0x1f2c, 0x399]), (0x1f95, [0x1f2d, 0x399]), (0x1f96, [0x1f2e, 0x399]),
  (0x1f97, [0x1f2f, 0x399]), (0x1f98, [0x1f28, 0x399]), (0x1f99, [0x1f29, 0x399]),
  (0x1f9a, [0x1f2a, 0x399]), (0x1f9b, [0x1f2b, 0x399]), (0x1f9c, [0x1f2c, 0x399]),
  (0x1f9d, [0x1f2d, 0x399]), (0x1f9e, [0x1f2e, 0x399]), (0x1f9f, [0x1f2f, 0x399]),
  (0x1fa0, [0x1f68, 0x399]), (0x1fa1, [0x1f69, 0x399]), (0x1fa2, [0x1f6a, 0x399]),
  (0x1fa3, [0x1f6b, 0x399]), (0x1fa4, [0x1f6c, 0x399]), (0x1fa5, [0x1f6d, 0x399]),
  (0x1fa6, [0x1f6e, 0x399]), (0x1fa7, [0x1f6f, 0x399]), (0x1fa8, [0x1f68, 0x399]),
  (0x1fa9, [0x1f69, 0x399]), (0x1faa, [0x1f6a, 0x399]), (0x1fab, [0x1f6b, 0x399]),
  (0x1fac, [0x1f6c, 0x399]), (0x1fad, [0x1f6d, 0x399]), (0x1fae, [0x1f6e, 0x399]),
  (0x1faf, [0x1f6f, 0x399]), (0x1fb2, [0x1fba, 0x399]), (0x1fb3, [0x391, 0x399]),
  (0x1fb4, [0x386, 0x399]), (0x1fb6, [0x391, 0x342]), (0x1fb7, [0x391, 0x342, 0x399]),
  (0x1fbc, [0x391, 0x399]), (0x1fc2, [0x1fca, 0x399]), (0x1fc3, [0x397, 0x399]),
  (0x1fc4, [0x389, 0x399]), (0x1fc6, [0x397, 0x342]), (0x1fc7, [0x397, 0x342, 0x399]),
  (0x1fcc, [0x397, 0x399]), (0x1fd2, [0x399, 0x308, 0x300]), (0x1fd3, [0x399, 0x308, 0x301]),
  (0x1fd6, [0x399, 0x342]), (0x1fd7, [0x399, 0x308, 0x342]), (0x1fe2, [0x3a5, 0x308, 0x300]),
  (0x1fe3, [0x3a5, 0x308, 0x301]), (0x1fe4, [0x3a1, 0x313]), (0x1fe6, [0x3a5, 0x342]),
  (0x1fe7, [0x3a5, 0x308, 0x342]), (0x1ff2, [0x1ffa, 0x399]), (0x1ff3, [0x3a9, 0x399]),
  (0x1ff4, [0x38f, 0x399]), (0x1ff6, [0x3a9, 0x342]), (0x1ff7, [0x3a9, 0x342, 0x399]),
  (0x1ffc, [0x3a9, 0x399]), (0xfb00, [0x46, 0x46]), (0xfb01, [0x46, 0x49]), (0xfb02, [0x46, 0x4c]),
  (0xfb03, [0x46, 0x46, 0x49]), (0xfb04, [0x46, 0x46, 0x4c]), (0xfb05, [0x53, 0x54]),
  (0xfb06, [0x53, 0x54]), (0xfb13, [0x544, 0x546]), (0xfb14, [0x544, 0x535]),
  (0xfb15, [0x544, 0x53b]), (0xfb16, [0x54e, 0x546]), (0xfb17, [0x544, 0x53d])]

def lowerLongData : List (Nat × List Nat) := [
  (0x130, [0x69, 0x307])]

end Stencil.Text
