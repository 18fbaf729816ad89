set_option autoImplicit false

namespace Stencil.Text

def alphabeticData : String :=
  "Btp6pBb0a0405m1u1Mp4be47010Ce0th1123106012101j1Ca1Du8El1B1206B4B3d101111108q43ta5Bj16eCt174742a220gBbdCsow91405n2ij
    o7a5n16708B5ab366C31f124edi17212l16103337212110804114c1a04215412l1611*2444121407310h5b218121l16111438121130f3l3421
    7212l161114372121914114d0g115321331101131323b4432123060B4c121m1f37121281121123s317121m1914371212815213d2cc121B4271
    212105374m5121h3n181026851017i1dBl5660Bf110141n101i12241060e3w0Br71z4i4f1zBvBi1024gBra32B110502B61J8132610132B4132
    w132610132e1Bk132BuB1fgCd253R72g1p5C23a7jbkcjcc1211cBf2ie040BvCg7B65Bxau1b48nt24bB74pBir4Bq2jBe0n1b2BdBf1e17BfB523
    aB71aeBim2az2a5B622B531511305FbjxbHp252B1252710*21u2Bg1610321633254c5216D80d0gcCt040291034601010131a235440hB4WlBf
    BYeGc6331cB110502Bj70gm9616*61vBb0N12p874244Cd621Ch135B61ClhvBcfO8HB3BsXRgBvB92Hg3fa1kBa573D4B382Cu2C9kk1woBfcBv10
    B853012aw5yds3Be1bf0gfa41Bi9dim3Bw1010o22f23b5252596161B61d6DelLYbcm4BcJAsK52CxB26c45b1c141011111CzxK2iBr2BhB4bD84
    1DqB0p6pbCg35252522zb1p1i111e2dyDeBxBgHfs3BcBbvdt5B65t2z4714B6Ediz4z4B38Bfca1e16111a1e16113BfcIm9la7o51B518Bx5201
    B711302mam9uBti11alap6pB2Bj61Bs31157121sB6s3sz71rrBhalaidhD2C0BjBedBedB3yr305mGyB51131g5Be23sa08lB6hBakrm9BxB74aBk
    90donBeh38y309Br1391a010zh1x2063Bq610131e197Bkn317212l161114372121306056s910201B119102013113010B8Bt1213k2uBt2110F4
    Bh26p5yBq1030BnBh20Bzq2dl6F5BkCvBrv72027111t112123Cl72B9251011rBe29hBz50iC0Cv7Cgwv81B81610Bdt2l1dC16111B7301112102
    1o5111B0111310nB7H8m9g1B432D30C7ZlCuD2hFfCV8CofBDrh5pEGy5Q6HI1BaBWhPs7uhC6htiBbg3vk5iM0B8FvBrwo2oB8C24Bk7gBs110c69
    HX1B5vCpD6JHp316111I2f0t220e38KzCM4Cy5c387940GK9Cc1By112021231b10161Bs1327161r131410361Jf2o1o1u1o1u1o1u1o1u1o17BZ8
    u65Fx61g2611145Bpx0D4B8a6g0IxtiB7NgrGct20Fru1l81G8613111e1FgBnBv3030BHg31q11102019131010604010101211102010*3111023
    16131310191g52141gRgp6p6pDYuBTQnwERp2GEd2HZkfR9CQiP1BPuFH65JBt"

def numericData : String :=
  "Bc9Dc15022BO19Dq9Fi9Lg9Da945D09Da9*125D2cD7986Cv9Cw67iD19Co9Da9ByjHg9By9TzjYh2Gn969m9Ic9DkaEl969F29Ce9Dq969BD203569
    FiBe24U6BnC6lRitBMh0Vl0p8e2Jj3Du9u71ew9B3eBFOg9F89Iw5Ea9B29Fi9m9Ce9La9WSu9NpB8cBkh1JhqB03t080Dq4Fm9BA67p6B38C34m5
    Eg12f2B9Bs8Bg1u2C34Cw7o7B56J65Bc969HquEe9B63D46DqtDk9Bo9E097jGz9Ji9Da9Ke9Cu96jC4bLoiCl9Se9CesGb9By9Bi9Jy9CukBDnD2
    QQ19CN29Ce9Dq916Om9HamJp2ZL59BP2jcjD0oBEtBdCNs9Lq9Ny9Gv9Tw8Dk9VzBm1213C4B81eBAqcCZf9"

def casedData : String :=
  "Btp6pBb0a0405m1u1Fe134Fr2y71u4Co0B632123106012101j1Ca1Du8El1B19B4DAvB110502B613SoCd25CIia5B622BsFbBsHp252B1252710*2
    1u2Bg1610321633254c5216D80d0gcCt040291034601010131540235440hv31WpBfBYeGc6331cB11050BHCyB9itDoCt331C4k512WtB61d6C7
    VRk6c4BCpp6pBH1C7Coz4zD8a1e16111a1e1611Mj0221B518BHxBedBeCllalDAyBrXJ4Brwo2oBBRgCc1By112021231b10161Bs1327161r1314
    10361Jf2o1o1u1o1u1o1u1o1u1o17BZ891j65H9BpCIyBvCEcp6p6p"

def caseIgnorableData : String :=
  "B3060b0z010Bz040104021NzFb41409110Gz6Fr050BdB810111110B80b5aa10z0akg0Ct71913x010uqCjaBma4020onB72B807158B5BlBj01047
    4036a1d0f0Bm04380k1q021Bl041412230u130b1Bl0441140k1m510Bm020138071b1u0Bp0c0Be030Bj012521371b1t0Bm0206051k1s1Bl1438
    0k1t0C007210Ci026b8Cq0289016C11r01010Bjd14115a1z90Cu3151121p142g3d02160f0Cm0Qw2BAa2t1u1u1Bs116802a3050B94Bf0Bt1y0
    Da2419062G3120Bm0161010276920B308B92bk3Bc0141050B48c1w32112Bk0113012Bm721Bs5Ca21c16406031BeBqd0yCsMd012b2d2d2d1c48
    1a02024Bd41910d0gcBfwDE31D52Dh0f0CovBb0N10B033450Cl5Cl2BEJy0BIq5Hi0Cq31910s3C81exC60n2Cu331803040p150E71qhd0B27pa
    Ba2Bc02321h0l1Bu52121c080z0b0Bf012215110r0e15110Cs492Dd02040VR40E3gPxf30cfy020Ep07060b0z010Bb0B91Bv0l2O90Ga0E54BCl
    51B518Q621153B4240El1Px3B20q410Ir1o0Bg5ByaBd3Df0BieB5021a2Bd3212040a0Be2B0417Bq0c1Bg8a320Cn220116020Ed037l1Bl130B1
    634By5d01010e1Cd72210n0Cc5104111Gm36111r1Cd72011Cy0102510Ct0102314H7811H411040E032140w9B4523809522Bac11Fi01210Fl61
    510Cal261111De530111610C013010Bt0Ht1b1Bg45010n0FS5g6eMGgb32CRc4Bn693O42B41Ne0BrgBs111d1RN031611DLq113FAkB92mP429f2
    6u3E42CCzBi4Bd80e0m41eBLs61g2611145Bpx0EgdK80Bp3O34H21Gr020715090Mw6D17CXz4BGLMp0uCnDkGn"

def graphemeExtendData : String :=
  "VcD3Hn6HbB810111110C0aBckg0Ct6252113z0uqCjaBm890o3181214B72Bn8B6n1vBj010474036a1t0Bm010238090a1q021Bl041412230u130b
    1Bl0441140k1m510Bm011138072a1u0Bn010c090B4030Bj012521371b1t0Bm02110321371b1s1Bl110238090a1t0C0040221080C9026c7Cq02
    8b6C11r01010Bjd14115a1z90Cu3151121p142g3d02160f0Tj2BAa3s2t1u1Bs116802a90B9210D91y0Da2419062G3120Bm0161010276920Bc
    B92bk3Bc942B28c1w325Bk0113014Bk721E821c16406031FiBrOk0FfwDHa2Dx0CovPe5Cx1BGFw319w1C81Hk03040p150E71qhd0B27pa10B82
    Bc0232120B00Bv52121c080Bb0Bf012215110B6180Gm02040VR40UhfgfK61Qt0Ga0E54BUe21153B4240El1Px3Bt4It1C55ByaBd3Df0BieB502
    1a2Bd32170Bp2B0417Bq0c1Bg8108320Cn2236020Ed037l1Bl11010c090e634Bv0251020124210e1Cd72210n0C902510201111Gj0236111r1
    Cd72011Cy01027Ct0102314H7811Gt0a340E032140w9B4523809522Bac11Fi01210Fl61510Cal261111De530111610C013010Jn1b1Bg452n0
    FSl06eMGgb32CRc4Bn6BD40Br3C90b1UZ71FApB92mP24358726u3E42CCzBi4Bd80e0m41eBLs61g261114Cs0Eg6Kf0Bp3O43H21Gr0207150N66
    D16BGOLpCnDkGn"

/-- Code points without a printed form: controls, formats, separators, fillers, and those that are
unassigned or private. -/
def unprintedData : String :=
  "0wCmxc0Sp0B41637010k0L10B21Be130Bj7r36gm0Fc0Bc1Bn1CtdBn1Bd1f0s110b4w6C30Eh08121m0701241912147132051p1306321m0702020
    2110532132164016h9309030m0702051a030311e41c670308121m0702051912136332051i9206230422010222232c3523041151dl4d030n0g1
    90304620302141a6m030n0a051903046243041a03bd030Bf03063g1q030i2o090117213601085a13bBm3tB0201050o010n1501070a14vC00B0
    3B30B00f0dB0Fi01411Dz1Gg041701041B5041x041701041f0Bl041Bv1w2q5Ce161Rs0s2Ch6m8o8kbd0302bBg1B41a5a5b4a5Ch6B74By9v0c3
    c312B615aB83q5b2Bq1Bt0t1b5a5e1Ba1cjC50Em7Bo2f2Bq4B71b7B74Ou161B21618010*2v1Bh0f0e160j1309go7Bbg21r0d2ydxeDw3Silbk
    BYc1Km4B901411Bk62do870*7Dixq0ChbFypg0Br0Ce1Cv4B70Bf0B60Ce8Bc0BFHp2Bj8JojF47G5jBo2a5Bk7By7c5D8au2C60b3x0Bj8e1a1Cvn
    s96161687070Bo3Di1a5LYcbn3BdJArK61CyB17b54q050102020S2vgfa5Bf0j04350Dr3Ef0u261*232707c21c0q0j020f1exDf433B92Cg0d21
    BaBaDlt2Bdes3B08u4B74u0B13eB5Ee1a5B03*1B47Bgac0f07020b0f07022BgbIn8m98n60B609Bw6110B802211n0C079Bbj024x2r4rB1Bk3k1
    Be0248030t133a696BsvB33c8Bi2t1r4q64b7C7C1BiBfcBf6Ba7a5B22t72Frv0B60312f679wBa7B6lqB1sjn8C63B08Bq05cp6a5Bh0i7B38Co0
    kai0BbBp701040f0b5Bn4a5408121m0702050a12131151471725aa01110B20a0111040a0272sCk05tC07aElBi1B2xBxaa5diBm5a5krr1f3nF4
    BoCrCbb81118020u021c8aBx81Ba1bqC07CbcC16aCd8Cfyda590B90e9t2w1m0eC07020B82102097a56020B102066a5B83aGtp6h0B52tCc1eBe
    cZnCtD305aFgCV7CrcBDsfm9EGz4Q7HI0BmBW5Pt6v0a3C90a5u169By9a070l4jLzBmFhCj4p1pB7C33Bl6hBr5a78HX2B4wCoD7JHo407020I3e1
    s311d47L0CM3Cz4d296a14EFbH12M45neheBa1n8D8BnGu9B31C27D4kByDdkbkbCf8pDqCd0Bz021112140c01070Bt0418070s040501270Jg1I4
    1Tie50fBEnv56Fw70h1702054Bqw1D3B92e1a32IvvgBm41MvB6FxB731Fbv0m72G7704020f0Fh1gB4C43a32VsBwC3BpFd40r0201110a0401015
    1310*230201110*420114070404010a0h43050hBf2HhB83Csbf1f0f0B19EuBjtcB83962d6E9BBd2h2d2G25c31ec3Bk7a5B47u1c32d9B2Jk7e1
    d2b2Bl013g1c3a6E30CvBCkBTQovERq1GEe1HZleRaCQhP2BPtFH74JBuBLDX1"

end Stencil.Text
