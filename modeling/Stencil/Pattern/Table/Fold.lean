set_option autoImplicit false

namespace Stencil.Pattern.Table

/-- Runs of characters with the representative of those that differ from them only in case: first, count,
stride and distance in base 36. -/
def folding : String :=
  "Btq1wF111VjFcn1wG071wH4o21Ii321Ip821J6n21Kg11-DdKh321Kn11-HgKp11FuKq221Ku11FqKv111Kx21FpKz111L211C7L311FmL411FnL511
    1L711FpL811FrLa11FvLb11FtLc111Lg11FvLh11FxLj11FyLk321Lq11G2Lr111Lt11G2Lw111Ly11G2Lz111M121G1M3221M711G3M8111Mc111Mk1
    12Ml111Mn112Mo111Mq112Mr921Na921Nt112Nu221Ny11-CpNz11-BkO0k21P411-DmP6921Pu11LNvPv111Px11-EjPy11LNsQ1111Q311-FfQ411
    BxQ511BzQ6521X911D8Yg221Ym111Yv11D8Z211B2Z431B1Z811BsZa21BrZdh1wZv91wBAq111BB3118BB411-uBB511-pBB911-fBBa11-mBBcc21
    BC011-BiBC111-BcBC411-BoBC511-BsBC7111BC911-7BCa111BCd31-DmBCgg1C8BCww1wBF4h21BGar21BHs11fBHt721BI8Bc21BKxB21BcEO8B2
    1HTsEPb11HTsEPh11HTsFM061-8HUo11-GQuHUp11-GQtHUq11-GQkHUr21-GQiHUt11-GQjHUu11-GQcHUv11-GPoHUw11BLRnHUx111HV4B71-DFk
    HWd31-DFkIFcC321IJn11-BmIJq11-IDjIJsBc21IMo81-8IN461-8INk81-8IO081-8IOg61-8IOx42-8IPc81-8IQ881-8IQo81-8IR481-8IRk21
    -8IRm21-C2IRo11-9IRq11-HR9IS041-CeIS411-9ISb11-HSzISg21-8ISi21-CsISr11-HSjISw21-8ISy21-D4IT011-7ITc21-DkITe21-DiITg1
    1-9JBq11-IAtJBu11-IYvJBv11-IViJC211sJDcg1gJEb111KB2q1qMAwBc1BcMDk111MDm11-LMfMDn11-EByMDo11-LLzMDr321MDx11-LNgMDy11
    -LMlMDz11-LNjME011-LNiME2111ME5111MEe21-LOfMEgBe21MHf221MHm111BTM8n21BTO0e21BTSi721BTSyv21BTUx221BTV111-BLTgBTV2521
    BTVf111BTVh11-BTEgBTVk221BTVqa21BTWa11-BTF8BTWb11-BTFjBTWc11-BTFfBTWd11-BTF5BTWe11-BTF8BTWg11-BTDuBTWh11-BTEiBTWi11
    -BTDxBTWj11ZsBTWk821BTX011-BcBTX111-BTF7BTX211-BLUwBTX3221BTX711-BTG7BTX8111BTXc111BTXi321BTXo11-BTM9BTYd111BUX4C81
    -BPNkCQR1111CRU9q1wCTCwB41B4CTHsB01B4CTN4j2B3CTN552B3CTNh72B3CTNx32B3CTO511B3CVLcBf1BsCVR4m1wCYTkw1wDWEgw1wFDTcy1y"

end Stencil.Pattern.Table
